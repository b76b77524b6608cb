import ShardCompaction.Planner.Basic
import ShardCompaction.Proofs.Compaction.Plan
import ShardCompaction.Proofs.Planner.Extraction

namespace ShardCompaction.Planner

variable {σ : Type} {p : Planner σ} {id : Int64} {s s' : Session σ} {sets : List OrganizationSet}

/-- The table that the store has under an id, the records that it lists for the table, the eligible
shards among them, and the plan, with the states of the session in between. -/
structure Course (p : Planner σ) (id : Int64) (s s' : Session σ) where
  table : Table
  records : List ShardRecord
  eligible : EligibleShards
  plan : CompactionPlan
  found : σ
  listed : Session σ
  extracted : Session σ
  table_eq : p.store.table id s.store = .ok table found
  records_eq : p.store.shards table.id found = .ok records listed.store
  listed_metrics : listed.metrics = s.metrics.addPass
  eligible_eq : Extraction.ofRecords p.store table records p.options listed = .ok eligible extracted
  plan_eq : p.compactor.plan table eligible.shards = .ok plan
  final_store : s'.store = extracted.store
  final_metrics : s'.metrics =
    (extracted.metrics.addExtraction eligible).addPlan plan.sets.length plan.stats

theorem exists_course_of_work {s₀ : Session σ} (hstore : s₀.store = s.store)
    (hmetrics : s₀.metrics = s.metrics.addPass) (h : p.work id s₀ = .ok sets s') :
    ∃ course : p.Course id s s', course.plan.sets = sets := by
  obtain ⟨table, s₁, htable, h⟩ := Pass.bind_eq_ok_iff.mp h
  obtain ⟨found, hfound, rfl⟩ := Pass.call_eq_ok_iff.mp htable
  obtain ⟨eligible, s₂, htab, h⟩ := Pass.bind_eq_ok_iff.mp h
  obtain ⟨records, s₃, hshards, hextract⟩ := Pass.bind_eq_ok_iff.mp htab
  obtain ⟨listed, hlisted, rfl⟩ := Pass.call_eq_ok_iff.mp hshards
  obtain ⟨_, _, hcount, h⟩ := Pass.bind_eq_ok_iff.mp h
  obtain rfl := Pass.count_eq_ok_iff.mp hcount
  obtain ⟨_, _, hlog, h⟩ := Pass.bind_eq_ok_iff.mp h
  obtain rfl := Pass.log_eq_ok_iff.mp hlog
  obtain ⟨plan, _, hcompute, h⟩ := Pass.bind_eq_ok_iff.mp h
  obtain ⟨hplan, rfl⟩ := Pass.compute_eq_ok_iff.mp hcompute
  obtain ⟨_, _, hcount, h⟩ := Pass.bind_eq_ok_iff.mp h
  obtain rfl := Pass.count_eq_ok_iff.mp hcount
  obtain ⟨_, _, hlog, h⟩ := Pass.bind_eq_ok_iff.mp h
  obtain rfl := Pass.log_eq_ok_iff.mp hlog
  obtain ⟨_, _, hlog, h⟩ := Pass.bind_eq_ok_iff.mp h
  obtain rfl := Pass.log_eq_ok_iff.mp hlog
  obtain ⟨rfl, rfl⟩ := Pass.pure_eq_ok_iff.mp h
  exact ⟨⟨table, records, eligible, plan, found, ⟨listed, s₀.log, s₀.metrics⟩, s₂,
    hstore ▸ hfound, hlisted, hmetrics, hextract, hplan, rfl, rfl⟩, rfl⟩

theorem exists_course (h : p.planTable id s = .ok sets s') :
    ∃ course : p.Course id s s', course.plan.sets = sets := by
  rw [planTable] at h
  dsimp only at h
  split at h
  case h_2 => simp at h
  case h_3 => simp at h
  case h_1 sets₁ s₁ hwork =>
    obtain ⟨rfl, rfl⟩ := EStateM.Result.ok.inj h
    let opened := (s.mapLog (·.openScope (scope id))).mapMetrics Metrics.addPass
    have hstore : opened.store = s.store := rfl
    have hmetrics : opened.metrics = s.metrics.addPass := rfl
    obtain ⟨course, hsets⟩ := exists_course_of_work hstore hmetrics hwork
    exact ⟨{ course with }, hsets⟩

namespace Course

theorem extracted_any (course : p.Course id s s') :
    course.extracted.metrics = course.listed.metrics ∧
      ∃ c, Extraction.Serves c course.table (fun _ => True) ∧
        Extraction.Extracted c (fun _ => True) course.records course.eligible := by
  have hreads := Extraction.ofRecords_reads_any p.store course.table p.options course.records
  exact (hreads _ _ _ trivial course.eligible_eq).2

/-- All eligible shards are partitioned, also those of a temporal table. -/
theorem length_groups (course : p.Course id s s') {groups : List Group}
    (h : course.table.partition p.compactor.zone course.eligible.shards = .ok groups) :
    (groups.map fun g => g.shards.length).sum = course.eligible.shards.length := by
  obtain ⟨-, c, hserves, hextracted⟩ := course.extracted_any
  have hall : course.eligible.shards.filter course.table.keeps = course.eligible.shards :=
    List.filter_eq_self.mpr fun shard hs => hextracted.keeps hserves hs
  have hlength := (Table.partition_perm h).length_eq
  rwa [hall, List.length_flatMap] at hlength

theorem isDelta_eq_false (course : p.Course id s s') {shard : Shard}
    (hs : shard ∈ course.eligible.shards) : shard.isDelta = false := by
  obtain ⟨-, c, -, hextracted⟩ := course.extracted_any
  exact hextracted.isDelta_eq_false hs

theorem deltas_eq_zero (course : p.Course id s s') : course.plan.stats.deltas = 0 := by
  obtain ⟨groups, hgroups, -, hstats⟩ := Compactor.plan_eq_ok_iff.mp course.plan_eq
  have hsub := (Table.partition_perm hgroups).subset
  have hnone : ∀ shard ∈ groups.flatMap Group.shards, ¬shard.isDelta = true := by
    intro shard hs
    rw [course.isDelta_eq_false (List.mem_of_mem_filter (hsub hs))]
    simp
  rw [hstats]
  exact List.countP_eq_zero.mpr hnone

end Course

end ShardCompaction.Planner
