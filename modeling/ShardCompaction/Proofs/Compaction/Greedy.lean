import Mathlib.Algebra.GroupWithZero.Nat
import Mathlib.Data.List.Chain
import Mathlib.Algebra.BigOperators.Group.List.Basic
import ShardCompaction.Proofs.Compaction.Walk

namespace ShardCompaction

def totalRows (run : List Shard) : Nat := (run.map fun s => s.rows.toNat).sum

def totalBytes (run : List Shard) : Nat := (run.map fun s => s.bytes.toNat).sum

@[simp] theorem totalRows_append (xs ys : List Shard) :
    totalRows (xs ++ ys) = totalRows xs + totalRows ys := by simp [totalRows]

@[simp] theorem totalBytes_append (xs ys : List Shard) :
    totalBytes (xs ++ ys) = totalBytes xs + totalBytes ys := by simp [totalBytes]

@[simp] theorem totalRows_singleton (s : Shard) : totalRows [s] = s.rows.toNat := by
  simp [totalRows]

@[simp] theorem totalBytes_singleton (s : Shard) : totalBytes [s] = s.bytes.toNat := by
  simp [totalBytes]

namespace Compactor

variable {c : Compactor}

/-- Both totals of a run are within the limits. -/
def Fits (c : Compactor) (run : List Shard) : Prop :=
  totalRows run ≤ c.maxRows.toNat ∧ totalBytes run ≤ c.maxBytes.toNat

instance (run : List Shard) : Decidable (c.Fits run) := inferInstanceAs (Decidable (_ ∧ _))

theorem fits_nil (c : Compactor) : c.Fits [] := ⟨Nat.zero_le _, Nat.zero_le _⟩

theorem Fits.of_prefix {xs ys : List Shard} (h : c.Fits ys) (hp : xs <+: ys) : c.Fits xs := by
  obtain ⟨zs, rfl⟩ := hp
  simp only [Fits, totalRows_append, totalBytes_append] at h ⊢
  omega

theorem isCandidate_iff (c : Compactor) (s : Shard) :
    c.isCandidate s = true ↔
      s.isDelta = false ∧ s.rows.toNat < c.maxRows.toNat ∧ s.bytes.toNat < c.maxBytes.toNat := by
  simp [isCandidate, isAdequate, UInt64.lt_iff_toNat_lt]

theorem fits_singleton {s : Shard} (h : c.isCandidate s = true) : c.Fits [s] := by
  have hs := (c.isCandidate_iff s).mp h
  simp only [Fits, totalRows_singleton, totalBytes_singleton]
  omega

/-- A cut of a list into consecutive runs, none empty and all within the limits, where each run is
full: with the first shard of the next run it would break a limit. -/
structure IsGreedyCut (c : Compactor) (shards : List Shard) (runs : List (List Shard)) : Prop where
  flatten_eq : runs.flatten = shards
  nonempty : ∀ run ∈ runs, run ≠ []
  fits : ∀ run ∈ runs, c.Fits run
  full : runs.IsChain fun run next => ∀ s ∈ next.head?, ¬c.Fits (run ++ [s])

namespace IsGreedyCut

theorem nil (c : Compactor) : c.IsGreedyCut [] [] := ⟨rfl, by simp, by simp, .nil⟩

theorem mem {shards run : List Shard} {runs : List (List Shard)} (h : c.IsGreedyCut shards runs)
    (hr : run ∈ runs) {s : Shard} (hs : s ∈ run) : s ∈ shards := by
  rw [← h.flatten_eq]
  exact List.mem_flatten_of_mem hr hs

theorem tail {shards run : List Shard} {runs : List (List Shard)}
    (h : c.IsGreedyCut shards (run :: runs)) : c.IsGreedyCut runs.flatten runs :=
  ⟨rfl, fun r hr => h.nonempty r (List.mem_cons_of_mem _ hr),
    fun r hr => h.fits r (List.mem_cons_of_mem _ hr), h.full.tail⟩

theorem head?_flatten {run : List Shard} (h : run ≠ []) (runs : List (List Shard)) :
    (run :: runs).flatten.head? = run.head? := by
  cases run with
  | nil => exact absurd rfl h
  | cons s run => rfl

theorem cons {run shards : List Shard} {runs : List (List Shard)} (hr : run ≠ [])
    (hf : c.Fits run) (hm : ∀ s ∈ shards.head?, ¬c.Fits (run ++ [s]))
    (h : c.IsGreedyCut shards runs) : c.IsGreedyCut (run ++ shards) (run :: runs) := by
  refine ⟨by rw [List.flatten_cons, h.flatten_eq], ?_, ?_, ?_⟩
  · exact List.forall_mem_cons.mpr ⟨hr, h.nonempty⟩
  · exact List.forall_mem_cons.mpr ⟨hf, h.fits⟩
  · cases runs with
    | nil => exact .singleton _
    | cons next runs =>
      refine .cons_cons ?_ h.full
      rwa [← head?_flatten (h.nonempty next List.mem_cons_self) runs, h.flatten_eq]

/-- The first run is the longest beginning of the list that is within the limits. -/
theorem prefix_head {shards run p : List Shard} {runs : List (List Shard)}
    (h : c.IsGreedyCut shards (run :: runs)) (hp : p <+: shards) (hf : c.Fits p) : p <+: run := by
  have hrun : run <+: shards := ⟨runs.flatten, by rw [← h.flatten_eq, List.flatten_cons]⟩
  rcases List.prefix_or_prefix_of_prefix hp hrun with hle | ⟨t, rfl⟩
  · exact hle
  cases t with
  | nil => simp
  | cons s t =>
    -- A longer beginning would contain the run with the first shard of the next one.
    obtain ⟨rest, hrest⟩ := hp
    have htail : runs.flatten = s :: t ++ rest := by
      have hcut := h.flatten_eq
      rw [List.flatten_cons, ← hrest, List.append_assoc] at hcut
      exact List.append_cancel_left hcut
    cases runs with
    | nil => simp at htail
    | cons next runs =>
      have hn : next ≠ [] := h.nonempty next (by simp)
      have hs : s ∈ next.head? := by
        rw [← head?_flatten hn runs, htail]
        rfl
      have hsub : run ++ [s] <+: run ++ s :: t := ⟨t, by simp⟩
      exact absurd (hf.of_prefix hsub) ((List.isChain_cons_cons.mp h.full).1 s hs)

theorem unique {shards : List Shard} {a b : List (List Shard)} (ha : c.IsGreedyCut shards a)
    (hb : c.IsGreedyCut shards b) : a = b := by
  induction a generalizing shards b with
  | nil =>
    cases b with
    | nil => rfl
    | cons run runs =>
      have he := hb.flatten_eq.trans ha.flatten_eq.symm
      exact absurd (List.append_eq_nil_iff.mp he).1 (hb.nonempty run List.mem_cons_self)
  | cons run runs ih =>
    cases b with
    | nil =>
      have he := ha.flatten_eq.trans hb.flatten_eq.symm
      exact absurd (List.append_eq_nil_iff.mp he).1 (ha.nonempty run List.mem_cons_self)
    | cons run' runs' =>
      have hle : run <+: run' := hb.prefix_head ⟨runs.flatten, ha.flatten_eq⟩
        (ha.fits run List.mem_cons_self)
      have hge : run' <+: run := ha.prefix_head ⟨runs'.flatten, hb.flatten_eq⟩
        (hb.fits run' List.mem_cons_self)
      have hrun : run = run' := hle.eq_of_length (Nat.le_antisymm hle.length_le hge.length_le)
      subst hrun
      have hrest : runs.flatten = runs'.flatten :=
        List.append_cancel_left (ha.flatten_eq.trans hb.flatten_eq.symm)
      have htail := hb.tail
      rw [← hrest] at htail
      rw [ih ha.tail htail]

end IsGreedyCut

end Compactor

namespace OpenRun

variable {c : Compactor}

def members (run : OpenRun) : List Shard := run.newestFirst.reverse

/-- The totals of a run are the sums over its shards. -/
structure Exact (run : OpenRun) : Prop where
  rows : run.rows.toNat = totalRows run.members
  bytes : run.bytes.toNat = totalBytes run.members

theorem exact_empty : empty.Exact := ⟨rfl, rfl⟩

theorem exact_single (s : Shard) : (single s).Exact :=
  ⟨(totalRows_singleton s).symm, (totalBytes_singleton s).symm⟩

/-- A run is extended to the run with exact totals, and only within the limits. -/
theorem extend?_eq_some_iff (c : Compactor) {run longer : OpenRun} (h : run.Exact) (s : Shard) :
    run.extend? c s = some longer ↔
      longer.members = run.members ++ [s] ∧ longer.Exact ∧ c.Fits longer.members := by
  obtain ⟨shards, rows, bytes⟩ := longer
  have hm : (⟨shards, rows, bytes⟩ : OpenRun).members = run.members ++ [s] ↔
      s :: run.newestFirst = shards := by
    rw [members, members, ← List.reverse_cons, List.reverse_inj, eq_comm]
  have hr := h.rows
  have hb := h.bytes
  simp only [extend?, Option.bind_eq_bind, Option.bind_eq_some_iff, checkedAdd_eq_some_iff, hm]
  constructor
  · intro h
    obtain ⟨r, hrows, b, hbytes, he⟩ := h
    split at he
    case isFalse => simp at he
    case isTrue hle =>
      obtain ⟨rfl, rfl, rfl⟩ := OpenRun.mk.inj (Option.some.inj he)
      rw [UInt64.le_iff_toNat_le, UInt64.le_iff_toNat_le] at hle
      have hx : (⟨s :: run.newestFirst, r, b⟩ : OpenRun).Exact :=
        ⟨by rw [hm.mpr rfl, totalRows_append, totalRows_singleton, ← hr]; exact hrows,
          by rw [hm.mpr rfl, totalBytes_append, totalBytes_singleton, ← hb]; exact hbytes⟩
      exact ⟨rfl, hx, hx.rows ▸ hle.1, hx.bytes ▸ hle.2⟩
  · intro h
    obtain ⟨rfl, hx, hf⟩ := h
    have hrows := hx.rows
    have hbytes := hx.bytes
    rw [hm.mpr rfl, totalRows_append, totalRows_singleton, ← hr] at hrows
    rw [hm.mpr rfl, totalBytes_append, totalBytes_singleton, ← hb] at hbytes
    have hle : rows ≤ c.maxRows ∧ bytes ≤ c.maxBytes := by
      rw [UInt64.le_iff_toNat_le, UInt64.le_iff_toNat_le]
      exact ⟨hx.rows ▸ hf.1, hx.bytes ▸ hf.2⟩
    exact ⟨rows, hrows, bytes, hbytes, if_pos hle⟩

/-- Totals that overflow are beyond every limit, so only the limits decide. -/
theorem extend?_eq_none_iff (c : Compactor) {run : OpenRun} (h : run.Exact) (s : Shard) :
    run.extend? c s = none ↔ ¬c.Fits (run.members ++ [s]) := by
  constructor
  · intro hn hf
    have hR := c.maxRows.toNat_lt
    have hB := c.maxBytes.toNat_lt
    have hle := hf
    simp only [Compactor.Fits, totalRows_append, totalBytes_append, totalRows_singleton,
      totalBytes_singleton, ← h.rows, ← h.bytes] at hle
    let longer : OpenRun := ⟨s :: run.newestFirst, run.rows + s.rows, run.bytes + s.bytes⟩
    have hm : longer.members = run.members ++ [s] := by simp [longer, members]
    have hx : longer.Exact := by
      refine ⟨?_, ?_⟩
      · rw [hm, totalRows_append, totalRows_singleton, ← h.rows, UInt64.toNat_add]
        omega
      · rw [hm, totalBytes_append, totalBytes_singleton, ← h.bytes, UInt64.toNat_add]
        omega
    have hs := (extend?_eq_some_iff c h s).mpr ⟨hm, hx, hm ▸ hf⟩
    rw [hn] at hs
    exact absurd hs (by simp)
  · intro hf
    cases he : run.extend? c s with
    | none => rfl
    | some longer =>
      obtain ⟨hm, -, hl⟩ := (extend?_eq_some_iff c h s).mp he
      exact absurd (hm ▸ hl) hf

def next (c : Compactor) (run : OpenRun) (s : Shard) : OpenRun := (run.extend? c s).getD (.single s)

theorem exact_next {run : OpenRun} (h : run.Exact) (c : Compactor) (s : Shard) :
    (run.next c s).Exact := by
  rw [next]
  cases he : run.extend? c s with
  | none => exact exact_single s
  | some longer => exact ((extend?_eq_some_iff c h s).mp he).2.1

/-- The open run of the loop depends on the candidates that it has met, and on nothing else. -/
theorem run_of_foldlM_pack {table : Table} {p q : Packing} {shards : List Shard}
    (h : shards.foldlM (c.pack table) p = .ok q) :
    q.run = (shards.filter c.isCandidate).foldl (next c) p.run := by
  induction shards generalizing p with
  | nil => exact congrArg Packing.run (Except.ok.inj h).symm
  | cons s shards ih =>
    rw [List.foldlM_cons] at h
    obtain ⟨p', hpack, hrest⟩ := Checked.bind_eq_ok_iff.mp h
    rw [ih hrest]
    cases hs : c.isCandidate s with
    | false =>
      rw [Compactor.pack_of_not_candidate hs] at hpack
      obtain rfl := Except.ok.inj hpack
      rw [List.filter_cons_of_neg (by simp [hs])]
      rfl
    | true =>
      rw [Compactor.pack_of_candidate hs] at hpack
      rw [List.filter_cons_of_pos hs, List.foldl_cons, next]
      cases hx : p.run.extend? c s with
      | some run =>
        rw [hx] at hpack
        obtain rfl := Except.ok.inj hpack
        rfl
      | none =>
        rw [hx] at hpack
        obtain ⟨closed, -, hclosed⟩ := Checked.bind_eq_ok_iff.mp hpack
        obtain rfl := Except.ok.inj hclosed
        rfl

/-- However many candidates come, the totals of the open run stay exact. -/
theorem exact_foldl_next {run : OpenRun} (h : run.Exact) (c : Compactor) (shards : List Shard) :
    (shards.foldl (next c) run).Exact := by
  induction shards generalizing run with
  | nil => exact h
  | cons s shards ih => exact ih (exact_next h c s)

theorem close_eq {run : OpenRun} (h : run.members ≠ []) : run.close = [run.members] := by
  have hn : run.newestFirst ≠ [] := fun he => h (by rw [members, he]; rfl)
  simp [close, members, List.isEmpty_iff, hn]

end OpenRun

namespace Compactor

variable {c : Compactor}

/-- The walk goes on from the open run that the candidates so far have led to. -/
theorem walk_append (c : Compactor) (run : OpenRun) (xs : List Shard) :
    ∃ closed, ∀ ys,
      c.walk run (xs ++ ys) = closed ++ c.walk (xs.foldl (OpenRun.next c) run) ys := by
  induction xs generalizing run with
  | nil => exact ⟨[], fun ys => rfl⟩
  | cons s xs ih =>
    obtain ⟨closed, h⟩ := ih (run.next c s)
    cases he : run.extend? c s with
    | none =>
      refine ⟨run.close ++ closed, fun ys => ?_⟩
      have hy := h ys
      simp only [OpenRun.next, he, Option.getD_none] at hy
      simp only [List.cons_append, walk, he, List.foldl_cons, OpenRun.next, Option.getD_none, hy,
        List.append_assoc]
    | some longer =>
      refine ⟨closed, fun ys => ?_⟩
      have hy := h ys
      simp only [OpenRun.next, he, Option.getD_some] at hy
      simp only [List.cons_append, walk, he, List.foldl_cons, OpenRun.next, Option.getD_some, hy]

theorem isGreedyCut_walk {run : OpenRun} (h : run.Exact) (hf : c.Fits run.members)
    {shards : List Shard} (hs : ∀ s ∈ shards, c.Fits [s]) :
    c.IsGreedyCut (run.members ++ shards) (c.walk run shards) := by
  induction shards generalizing run with
  | nil =>
    rw [walk]
    by_cases hn : run.members = []
    · have hc : run.close = [] := by
        rw [OpenRun.members, List.reverse_eq_nil_iff] at hn
        simp [OpenRun.close, hn]
      rw [hn, hc]
      exact .nil c
    · rw [OpenRun.close_eq hn]
      exact .cons hn hf (by simp) (.nil c)
  | cons s shards ih =>
    have hrest : ∀ t ∈ shards, c.Fits [t] := fun t ht => hs t (List.mem_cons_of_mem _ ht)
    cases he : run.extend? c s with
    | some longer =>
      obtain ⟨hm, hx, hl⟩ := (OpenRun.extend?_eq_some_iff c h s).mp he
      have hw := ih hx hl hrest
      have hstep : c.walk run (s :: shards) = c.walk longer shards := by simp only [walk, he]
      rwa [hm, List.append_assoc, List.singleton_append, ← hstep] at hw
    | none =>
      have hbreak := (OpenRun.extend?_eq_none_iff c h s).mp he
      have hn : run.members ≠ [] := by
        intro hn
        rw [hn] at hbreak
        exact hbreak (hs s List.mem_cons_self)
      have hw := ih (OpenRun.exact_single s) (hs s List.mem_cons_self) hrest
      simp only [walk, he, OpenRun.close_eq hn, List.singleton_append]
      exact .cons hn hf (by simpa using hbreak) hw

theorem isGreedyCut_runs {candidates : List Shard} (h : ∀ s ∈ candidates, c.isCandidate s = true) :
    c.IsGreedyCut candidates (c.runs candidates) :=
  isGreedyCut_walk OpenRun.exact_empty (fits_nil c) fun s hs => fits_singleton (h s hs)

end Compactor

end ShardCompaction
