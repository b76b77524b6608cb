import ShardCompaction.Proofs.Planner.Course

namespace ShardCompaction

namespace Metrics

/-- What a counter gained. Counters are words that wrap, and so is their difference. -/
def gain (counter : Metrics → UInt64) (before after : Metrics) : Nat :=
  (counter after - counter before).toNat

theorem toNat_add_ofNat_sub (a : UInt64) {n : Nat} (h : n < 2 ^ 64) :
    (a + UInt64.ofNat n - a).toNat = n := by
  have hcancel : a + UInt64.ofNat n - a = UInt64.ofNat n := by
    rw [UInt64.add_comm, UInt64.add_sub_cancel]
  rw [hcancel, UInt64.toNat_ofNat_of_lt' h]

/-- Between two readings every listed shard was counted once, and the planned ones are those of the
sets. -/
structure Accounts (before after : Metrics) (listed : Nat) (sets : List OrganizationSet) :
    Prop where
  shards : listed = gain deltasSkipped before after + gain shardsDropped before after +
    gain shardsAdequate before after + gain singletonsDiscarded before after +
    gain shardsPlanned before after
  planned : gain shardsPlanned before after = (sets.map OrganizationSet.size).sum

theorem accounts_of_lt {m : Metrics} {e : EligibleShards} {stats : CompactionStats}
    {sets : List OrganizationSet} {listed : Nat} (hlt : listed < 2 ^ 64)
    (htotal : e.deltas + e.dropped + e.shards.length = listed)
    (hshards : stats.adequate + stats.singletons + stats.planned = e.shards.length)
    (hplanned : stats.planned = (sets.map OrganizationSet.size).sum) :
    m.Accounts ((m.addPass.addExtraction e).addPlan sets.length stats) listed sets := by
  have hdeltas : gain deltasSkipped m ((m.addPass.addExtraction e).addPlan sets.length stats) =
      e.deltas := toNat_add_ofNat_sub _ (by omega)
  have hdropped : gain shardsDropped m ((m.addPass.addExtraction e).addPlan sets.length stats) =
      e.dropped := toNat_add_ofNat_sub _ (by omega)
  have hadequate : gain shardsAdequate m ((m.addPass.addExtraction e).addPlan sets.length stats) =
      stats.adequate := toNat_add_ofNat_sub _ (by omega)
  have hsingletons : gain singletonsDiscarded m
      ((m.addPass.addExtraction e).addPlan sets.length stats) = stats.singletons :=
    toNat_add_ofNat_sub _ (by omega)
  have hgain : gain shardsPlanned m ((m.addPass.addExtraction e).addPlan sets.length stats) =
      stats.planned := toNat_add_ofNat_sub _ (by omega)
  constructor
  · rw [hdeltas, hdropped, hadequate, hsingletons, hgain]
    omega
  · rw [hgain, hplanned]

end Metrics

namespace Planner

variable {σ : Type} {p : Planner σ} {id : Int64} {s s' : Session σ} {sets : List OrganizationSet}

/-- A pass that succeeds accounts for every shard that the store listed, whatever the store is: each
was counted once as a delete-delta shard, as dropped, as adequate, as a run of its own or as a
member of a set. No delete-delta shard reaches the compactor, and no eligible shard gets lost on the
way to its groups. -/
theorem planTable_accounts (h : p.planTable id s = .ok sets s') :
    ∃ course : p.Course id s s', course.plan.sets = sets ∧
      (∀ shard ∈ course.eligible.shards, shard.isDelta = false) ∧
      (∃ groups,
        course.table.partition p.compactor.zone course.eligible.shards = .ok groups ∧
        (groups.map fun g => g.shards.length).sum = course.eligible.shards.length) ∧
      (course.records.length < 2 ^ 64 →
        s.metrics.Accounts s'.metrics course.records.length sets) := by
  obtain ⟨course, rfl⟩ := exists_course h
  obtain ⟨hmetrics, c, -, hextracted⟩ := course.extracted_any
  obtain ⟨groups, hgroups, hsets, hstats⟩ := Compactor.plan_eq_ok_iff.mp course.plan_eq
  have hlength := course.length_groups hgroups
  have hdelta : ∀ shard ∈ course.eligible.shards, shard.isDelta = false :=
    fun shard hs => course.isDelta_eq_false hs
  have hdeltas := course.deltas_eq_zero
  refine ⟨course, rfl, hdelta, ⟨groups, hgroups, hlength⟩, ?_⟩
  intro hlt
  have hshards := p.compactor.stats_shards groups
  have hruns := p.compactor.stats_runs groups
  rw [List.length_flatMap, hlength, ← hstats] at hshards
  rw [← hstats] at hruns
  rw [course.final_metrics, hmetrics, course.listed_metrics]
  refine Metrics.accounts_of_lt hlt hextracted.total (by omega) ?_
  rw [hstats]
  exact Compactor.planned_eq_sum_size hsets

/-- A store of one table with three shards, one of them listed twice, and a delete-delta shard. Its
index has no row for shard 3, and one for a shard that is not listed. -/
def strayStore : MetadataStore Unit where
  table _ := pure (.plain 1)
  tables := pure [.plain 1]
  column table column := throw (.columnNotFound table column)
  sortColumns _ := pure []
  shards _ := pure [.plain 1 1 false, .plain 1 2 false, .plain 2 3 false, .plain 3 4 false,
    .plain 4 5 true]
  queryIndex _ _ _ := pure [⟨2, [], []⟩, ⟨1, [], []⟩, ⟨9, [], []⟩]

def strayPlanner : Planner Unit := ⟨strayStore, ⟨.utc, 100, 100⟩, .default⟩

theorem planTable_accounts_of_strayPlanner :
    ∃ sets s', strayPlanner.planTable 1 (.start () (.empty .error)) = .ok sets s' ∧
      sets.length = 1 ∧ ∃ course : strayPlanner.Course 1 (.start () (.empty .error)) s',
        course.plan.sets = sets ∧
        (∀ shard ∈ course.eligible.shards, shard.isDelta = false) ∧
        (∃ groups, course.table.partition .utc course.eligible.shards = .ok groups ∧
          (groups.map fun g => g.shards.length).sum = course.eligible.shards.length) ∧
        Metrics.zero.Accounts s'.metrics 5 sets := by
  have hok : Pass.yields (strayPlanner.planTable 1) (.start () (.empty .error))
      (fun sets => sets.length = 1) = true := by decide +kernel
  obtain ⟨sets, s', h, hone⟩ := Pass.exists_ok_of_yields hok
  obtain ⟨course, hsets, hdelta, hgroups, hcount⟩ := planTable_accounts h
  have hfive : course.records.length = 5 := by
    obtain ⟨hr, -⟩ := EStateM.Result.ok.inj course.records_eq
    rw [← hr]
    rfl
  rw [hfive] at hcount
  exact ⟨sets, s', h, of_decide_eq_true hone, course, hsets, hdelta, hgroups, hcount (by decide)⟩

end Planner

end ShardCompaction
