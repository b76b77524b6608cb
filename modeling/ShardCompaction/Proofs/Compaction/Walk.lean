import ShardCompaction.Compaction.Plan
import ShardCompaction.Proofs.Checked

namespace ShardCompaction

/-- The closed run, unless it is empty. -/
def OpenRun.close (run : OpenRun) : List (List Shard) :=
  if run.newestFirst.isEmpty then [] else [run.newestFirst.reverse]

namespace CompactionStats

def plus (a b : CompactionStats) : CompactionStats :=
  { groups := a.groups + b.groups
    candidates := a.candidates + b.candidates
    adequate := a.adequate + b.adequate
    deltas := a.deltas + b.deltas
    singletons := a.singletons + b.singletons
    planned := a.planned + b.planned }

theorem plus_assoc (a b c : CompactionStats) : (a.plus b).plus c = a.plus (b.plus c) := by
  simp only [plus, Nat.add_assoc]

theorem zero_plus (a : CompactionStats) : zero.plus a = a := by
  simp only [plus, zero, Nat.zero_add]

end CompactionStats

namespace Compactor

/-- Delete-delta shards never enter the walk. -/
def isCandidate (c : Compactor) (s : Shard) : Bool := !s.isDelta && !c.isAdequate s

/-- The runs that the loop closes from an open run on. -/
def walk (c : Compactor) : OpenRun → List Shard → List (List Shard)
  | run, [] => run.close
  | run, s :: shards =>
    match run.extend? c s with
    | some run => c.walk run shards
    | none => run.close ++ c.walk (.single s) shards

/-- The runs that candidates are packed into. -/
def runs (c : Compactor) (candidates : List Shard) : List (List Shard) := c.walk .empty candidates

/-- The runs of a group. -/
def groupRuns (c : Compactor) (g : Group) : List (List Shard) :=
  c.runs (g.shards.filter c.isCandidate)

/-- The runs of several groups, in group order and then in walk order. -/
def allRuns (c : Compactor) (groups : List Group) : List (List Shard) := groups.flatMap c.groupRuns

/-- The runs that become organization sets. -/
def mergedRuns (c : Compactor) (groups : List Group) : List (List Shard) :=
  (c.allRuns groups).filter fun run => 2 ≤ run.length

/-- The counters that some shards and the runs closed among them add. -/
def tally (c : Compactor) (groups : Nat) (shards : List Shard) (runs : List (List Shard)) :
    CompactionStats :=
  { groups
    candidates := shards.countP c.isCandidate
    adequate := shards.countP fun s => !s.isDelta && c.isAdequate s
    deltas := shards.countP Shard.isDelta
    singletons := runs.countP fun run => run.length = 1
    planned := (runs.filter fun run => 2 ≤ run.length).flatten.length }

/-- The counters of a plan for some groups. -/
def stats (c : Compactor) (groups : List Group) : CompactionStats :=
  c.tally groups.length (groups.flatMap Group.shards) (c.allRuns groups)

/-- The sets of the runs that are long enough. -/
def merge (table : Table) (runs : List (List Shard)) : Except Defect (List OrganizationSet) :=
  (runs.filter fun run => 2 ≤ run.length).mapM fun run =>
    OrganizationSet.ofShards table run OrganizationSet.automaticPriority

end Compactor

namespace Packing

/-- The packing with more counted. -/
def count (p : Packing) (added : CompactionStats) : Packing :=
  { p with stats := p.stats.plus added }

/-- The packing once runs are closed that give some sets and add to the counters. -/
def after (p : Packing) (added : CompactionStats) (sets : List OrganizationSet) : Packing :=
  ⟨.empty, sets.reverse ++ p.newestFirst, p.stats.plus added⟩

theorem count_after (p : Packing) (a b : CompactionStats) :
    (p.count a).after b = p.after (a.plus b) := by
  funext sets
  rw [after, after, ← CompactionStats.plus_assoc]
  rfl

theorem after_after (p : Packing) (a b : CompactionStats) (sets others : List OrganizationSet) :
    (p.after a sets).after b others = p.after (a.plus b) (sets ++ others) := by
  simp only [after, List.reverse_append, List.append_assoc, CompactionStats.plus_assoc]

end Packing

namespace Compactor

variable {c : Compactor} {table : Table}

theorem merge_append (runs later : List (List Shard)) :
    merge table (runs ++ later) =
      merge table runs >>= fun sets => (sets ++ ·) <$> merge table later := by
  rw [merge, List.filter_append, List.mapM_append]
  rfl

theorem merge_single {run : List Shard} (h : 2 ≤ run.length) :
    merge table [run] =
      ([·]) <$> OrganizationSet.ofShards table run OrganizationSet.automaticPriority := by
  rw [merge, List.filter_cons_of_pos (by simpa using h), List.filter_nil, List.mapM_cons,
    List.mapM_nil]
  rfl

theorem tally_single (c : Compactor) {run : List Shard} (h : 2 ≤ run.length) :
    c.tally 0 [] [run] = { CompactionStats.zero with planned := run.length } := by
  have hne : run.length ≠ 1 := by omega
  simp [tally, CompactionStats.zero, h, hne]

theorem tally_append (c : Compactor) (m n : Nat) (xs ys : List Shard)
    (runs later : List (List Shard)) :
    c.tally (m + n) (xs ++ ys) (runs ++ later) =
      (c.tally m xs runs).plus (c.tally n ys later) := by
  simp [tally, CompactionStats.plus]

/-- What one shard adds to the counters before any run is closed. -/
theorem tally_cons (c : Compactor) (s : Shard) (shards : List Shard) (runs : List (List Shard)) :
    c.tally 0 (s :: shards) runs = (c.tally 0 [s] []).plus (c.tally 0 shards runs) :=
  c.tally_append 0 0 [s] shards [] runs

/-- Runs that are closed before any of the shards is met. -/
theorem tally_closed (c : Compactor) (shards : List Shard) (runs later : List (List Shard)) :
    c.tally 0 shards (runs ++ later) = (c.tally 0 [] runs).plus (c.tally 0 shards later) :=
  c.tally_append 0 0 [] shards runs later

theorem tally_group (c : Compactor) (shards : List Shard) (runs : List (List Shard)) :
    c.tally 1 shards runs = (c.tally 1 [] []).plus (c.tally 0 shards runs) :=
  c.tally_append 1 0 [] shards [] runs

theorem stats_cons (c : Compactor) (g : Group) (groups : List Group) :
    c.stats (g :: groups) = (c.tally 1 g.shards (c.groupRuns g)).plus (c.stats groups) := by
  rw [stats, List.length_cons, Nat.add_comm]
  exact c.tally_append 1 groups.length g.shards _ (c.groupRuns g) _

/-- A run that is closed gives the sets and counts that the list of it gives. -/
theorem close_eq_after (c : Compactor) (table : Table) (p : Packing) :
    p.close table = p.after (c.tally 0 [] p.run.close) <$> merge table p.run.close := by
  obtain ⟨⟨newestFirst, rows, bytes⟩, sets, stats⟩ := p
  cases newestFirst with
  | nil => rfl
  | cons s older =>
    cases older with
    | nil => rfl
    | cons t older =>
      have hlong : 2 ≤ (s :: t :: older).reverse.length := by simp
      have hclose : OpenRun.close ⟨s :: t :: older, rows, bytes⟩ =
          [(s :: t :: older).reverse] := rfl
      have hset : Packing.close table ⟨⟨s :: t :: older, rows, bytes⟩, sets, stats⟩ =
          OrganizationSet.ofShards table (s :: t :: older).reverse OrganizationSet.automaticPriority
            >>= fun set => .ok ⟨.empty, set :: sets,
              { stats with planned := stats.planned + (s :: t :: older).length }⟩ := rfl
      rw [hset, hclose, merge_single hlong, tally_single c hlong, List.length_reverse]
      cases OrganizationSet.ofShards table (s :: t :: older).reverse
        OrganizationSet.automaticPriority with
      | error d => rfl
      | ok set => rfl

theorem pack_of_not_candidate {s : Shard} (h : c.isCandidate s = false) (p : Packing) :
    c.pack table p s = .ok (p.count (c.tally 0 [s] [])) := by
  cases hdelta : s.isDelta with
  | true => simp [pack, hdelta, Packing.count, tally, h, CompactionStats.plus]
  | false =>
    have hadequate : c.isAdequate s = true := by simpa [isCandidate, hdelta] using h
    simp [pack, hdelta, hadequate, Packing.count, tally, h, CompactionStats.plus]

theorem pack_of_candidate {s : Shard} (h : c.isCandidate s = true) (p : Packing) :
    c.pack table p s = match p.run.extend? c s with
      | some run => .ok { p.count (c.tally 0 [s] []) with run }
      | none => ({ · with run := .single s }) <$> (p.count (c.tally 0 [s] [])).close table := by
  obtain ⟨hdelta, hadequate⟩ : s.isDelta = false ∧ c.isAdequate s = false := by
    simpa [isCandidate] using h
  have hcount : p.count (c.tally 0 [s] []) =
      { p with stats := { p.stats with candidates := p.stats.candidates + 1 } } := by
    simp [Packing.count, tally, h, hdelta, hadequate, CompactionStats.plus]
  rw [hcount]
  simp only [pack, hdelta, hadequate, Bool.false_eq_true, if_false]
  rfl

/-- The sets of the runs that are closed first come first. -/
theorem after_bind {p : Packing} {a b : CompactionStats} {runs later : List (List Shard)}
    {loop : Packing → Except Defect Packing}
    (hloop : ∀ sets, loop (p.after a sets) = (p.after a sets).after b <$> merge table later) :
    (p.after a <$> merge table runs) >>= loop =
      p.after (a.plus b) <$> merge table (runs ++ later) := by
  rw [merge_append]
  cases merge table runs with
  | error d => rfl
  | ok sets =>
    calc loop (p.after a sets)
      _ = (p.after a sets).after b <$> merge table later := hloop sets
      _ = p.after (a.plus b) <$> (sets ++ ·) <$> merge table later := by
        rw [Functor.map_map]
        exact congrArg (· <$> merge table later)
          (funext fun others => p.after_after a b sets others)

/-- The loop over the shards of a group closes the runs of the walk. -/
theorem foldlM_pack_eq (c : Compactor) (table : Table) (p : Packing) (shards : List Shard) :
    (shards.foldlM (c.pack table) p >>= Packing.close table) =
      p.after (c.tally 0 shards (c.walk p.run (shards.filter c.isCandidate))) <$>
        merge table (c.walk p.run (shards.filter c.isCandidate)) := by
  induction shards generalizing p with
  | nil => exact close_eq_after c table p
  | cons s shards ih =>
    rw [List.foldlM_cons, bind_assoc]
    cases hs : c.isCandidate s with
    | false =>
      rw [pack_of_not_candidate hs, List.filter_cons_of_neg (by simp [hs]), c.tally_cons s shards,
        ← p.count_after]
      exact ih (p.count (c.tally 0 [s] []))
    | true =>
      rw [pack_of_candidate hs, List.filter_cons_of_pos hs, c.tally_cons s shards, ← p.count_after]
      cases hx : p.run.extend? c s with
      | some run =>
        rw [walk, hx]
        exact ih { p.count (c.tally 0 [s] []) with run }
      | none =>
        rw [walk, hx]
        dsimp only
        rw [close_eq_after c, bind_map_left, c.tally_closed]
        exact after_bind fun sets => ih { Packing.after _ _ sets with run := .single s }

theorem packGroup_eq (c : Compactor) (table : Table) (p : Packing) (g : Group) :
    c.packGroup table p g =
      p.after (c.tally 1 g.shards (c.groupRuns g)) <$> merge table (c.groupRuns g) := by
  rw [tally_group, ← p.count_after]
  exact c.foldlM_pack_eq table { p.count (c.tally 1 [] []) with run := .empty } g.shards

theorem foldlM_packGroup_eq (c : Compactor) (table : Table) {p : Packing} (groups : List Group)
    (h : p.run = .empty) :
    groups.foldlM (c.packGroup table) p =
      p.after (c.stats groups) <$> merge table (c.allRuns groups) := by
  induction groups generalizing p with
  | nil =>
    obtain ⟨run, sets, stats⟩ := p
    subst h
    rfl
  | cons g groups ih =>
    rw [List.foldlM_cons, packGroup_eq, stats_cons]
    exact after_bind fun sets => ih rfl

/-- A plan merges the runs of the walk that are long enough, in group order and then in walk order,
and its counters count what the loop met. A defect in an earlier run is found first. -/
theorem plan_eq (c : Compactor) (table : Table) (shards : List Shard) :
    c.plan table shards = table.partition c.zone shards >>= fun groups =>
      (fun sets => ⟨sets, c.stats groups⟩) <$> (c.mergedRuns groups).mapM fun run =>
        OrganizationSet.ofShards table run OrganizationSet.automaticPriority := by
  rw [plan]
  refine bind_congr fun groups => ?_
  have hdone : ∀ sets, (Packing.empty.after (c.stats groups) sets).newestFirst.reverse = sets := by
    intro sets
    rw [Packing.after, Packing.empty, List.append_nil, List.reverse_reverse]
  rw [c.foldlM_packGroup_eq table groups rfl, bind_map_left, map_eq_pure_bind]
  refine bind_congr fun sets => ?_
  rw [hdone, Packing.after, Packing.empty, CompactionStats.zero_plus]
  rfl

end Compactor

end ShardCompaction
