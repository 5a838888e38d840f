import Kratix.Workflow.Effect

/-!
# The position in the list of pipelines

A reconcile finds its position again by searching the pipelines for the one
that the most recent Job belongs to. These are the consequences of the search
and of the clamping of its result, as far as they are needed to follow a run.
-/

namespace Kratix.Workflow

variable {p : ParentKind} {opts : Opts p} {job : Job} {pipeline : PipelineJobResources}

/-- The search meets no pipeline of the Job, or stops at the last one there is. -/
theorem nextIndexFrom_cases (job : Job) (l : List PipelineJobResources) :
    (nextIndexFrom job l = 0 ∧ ∀ q ∈ l, jobIsForPipeline q job = false) ∨
      ∃ i q, l.reverse[i]? = some q ∧ jobIsForPipeline q job = true ∧
        (∀ i' q', l.reverse[i']? = some q' → jobIsForPipeline q' job = true → i' ≤ i) ∧
        nextIndexFrom job l = if isFailed job || isRunning job then i else i + 1 := by
  induction l with
  | nil => exact Or.inl ⟨rfl, by simp⟩
  | cons a rest ih =>
    have hlen : rest.reverse.length = rest.length := List.length_reverse
    by_cases ha : jobIsForPipeline a job = true
    · refine Or.inr ⟨rest.length, a, ?_, ha, ?_, ?_⟩
      · rw [List.reverse_cons, ← hlen, List.getElem?_concat_length]
      · intro i' q' h _
        have hlt := (List.getElem?_eq_some_iff.mp h).1
        simp only [List.length_reverse, List.length_cons] at hlt
        omega
      · rw [nextIndexFrom, if_pos ha]
    · have ha' : jobIsForPipeline a job = false := by simpa using ha
      rw [nextIndexFrom, if_neg ha]
      rcases ih with ⟨hnext, hnone⟩ | ⟨i, q, hi, hq, hmax, hnext⟩
      · exact Or.inl ⟨hnext, by simpa [ha'] using hnone⟩
      · refine Or.inr ⟨i, q, ?_, hq, ?_, hnext⟩
        · rw [List.reverse_cons, List.getElem?_append_left (List.getElem?_eq_some_iff.mp hi).1, hi]
        · intro i' q' h hq'
          rw [List.reverse_cons] at h
          rcases Nat.lt_or_ge i' rest.reverse.length with hlt | hge
          · exact hmax i' q' (by rwa [List.getElem?_append_left hlt] at h) hq'
          · rw [List.getElem?_append_right hge] at h
            obtain rfl : q' = a := by simpa using List.mem_of_getElem? h
            exact absurd hq' ha

/-- Why a Job may be created for the pipeline that is due: from the start, when
no Job belongs to any of the pipelines or on request, and otherwise right
behind the pipeline of the most recent Job, which has not failed. -/
theorem due_cases {last : Option Job}
    (hdue : opts.resources[dueIndex opts last]? = some pipeline)
    (hfree : ∀ job ∈ last, isRunning job = false ∧
      (jobIsForPipeline pipeline job = true → opts.isManual = true)) :
    (dueIndex opts last = 0 ∧ (opts.isManual = true ∨
      ∀ job ∈ last, ∀ q ∈ opts.resources, jobIsForPipeline q job = false)) ∨
    ∃ job i q, last = some job ∧ opts.isManual = false ∧ dueIndex opts last = i + 1 ∧
      opts.resources[i]? = some q ∧ jobIsForPipeline q job = true ∧ isFailed job = false := by
  cases last with
  | none => exact Or.inl ⟨by simp [dueIndex], Or.inr (by simp)⟩
  | some job =>
    obtain ⟨hrun, hsame⟩ := hfree job rfl
    by_cases hman : opts.isManual = true
    · exact Or.inl ⟨by simp [dueIndex, nextPipelineIndex, hman], Or.inl hman⟩
    have hman' : opts.isManual = false := by simpa using hman
    have hindex : dueIndex opts (some job) =
        min (nextIndexFrom job opts.resources.reverse) (opts.resources.length - 1) := by
      simp [dueIndex, nextPipelineIndex, hman']
    rcases nextIndexFrom_cases job opts.resources.reverse with ⟨hnext, hnone⟩ |
      ⟨i, q, hi, hq, -, hnext⟩
    · refine Or.inl ⟨by rw [hindex, hnext, Nat.zero_min], Or.inr ?_⟩
      rintro j hj q hq
      cases hj
      exact hnone q (List.mem_reverse.mpr hq)
    · rw [List.reverse_reverse] at hi
      have hlt := (List.getElem?_eq_some_iff.mp hi).1
      -- the pipeline that is due is not the one the Job belongs to
      have hne : dueIndex opts (some job) ≠ i := by
        intro h
        rw [h, hi] at hdue
        cases hdue
        exact hman (hsame hq)
      rw [hrun, Bool.or_false] at hnext
      cases hfailed : isFailed job with
      | true =>
        rw [hfailed, if_pos rfl] at hnext
        rw [hindex, hnext] at hne
        omega
      | false =>
        rw [hfailed, if_neg (by simp)] at hnext
        refine Or.inr ⟨job, i, q, rfl, hman', ?_, hi, hq, hfailed⟩
        rw [hindex, hnext] at hne ⊢
        omega

/-- When the Job of the pipeline that is due has finished, that pipeline is the last one. -/
theorem due_eq_last (hdue : opts.resources[dueIndex opts (some job)]? = some pipeline)
    (hfor : jobIsForPipeline pipeline job = true)
    (hdone : isRunning job = false ∧ isFailed job = false) (hman : opts.isManual = false) :
    dueIndex opts (some job) + 1 = opts.resources.length := by
  have hlt := (List.getElem?_eq_some_iff.mp hdue).1
  have hindex : dueIndex opts (some job) =
      min (nextIndexFrom job opts.resources.reverse) (opts.resources.length - 1) := by
    simp [dueIndex, nextPipelineIndex, hman]
  rcases nextIndexFrom_cases job opts.resources.reverse with ⟨-, hnone⟩ |
    ⟨i, q, hi, -, hmax, hnext⟩
  · have hnot := hnone pipeline (List.mem_reverse.mpr (List.mem_of_getElem? hdue))
    rw [hfor] at hnot
    cases hnot
  · rw [hdone.1, hdone.2, Bool.or_false, if_neg (by simp)] at hnext
    rw [List.reverse_reverse] at hmax
    have hle := hmax _ pipeline hdue hfor
    omega

/-- Behind the completed Job of the last pipeline, the last pipeline stays due. -/
theorem dueIndex_of_last
    (hlast : opts.resources[opts.resources.length - 1]? = some pipeline)
    (hfor : jobIsForPipeline pipeline job = true)
    (hdone : isRunning job = false ∧ isFailed job = false) (hman : opts.isManual = false) :
    dueIndex opts (some job) = opts.resources.length - 1 := by
  have hindex : dueIndex opts (some job) =
      min (nextIndexFrom job opts.resources.reverse) (opts.resources.length - 1) := by
    simp [dueIndex, nextPipelineIndex, hman]
  rcases nextIndexFrom_cases job opts.resources.reverse with ⟨-, hnone⟩ |
    ⟨i, q, hi, -, hmax, hnext⟩
  · have hnot := hnone pipeline (List.mem_reverse.mpr (List.mem_of_getElem? hlast))
    rw [hfor] at hnot
    cases hnot
  · rw [hdone.1, hdone.2, Bool.or_false, if_neg (by simp)] at hnext
    rw [List.reverse_reverse] at hmax
    have hle := hmax _ pipeline hlast hfor
    omega

end Kratix.Workflow
