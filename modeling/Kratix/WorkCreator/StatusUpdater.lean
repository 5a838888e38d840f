import Kratix.Lib.Keyed

/-!
# Merging the statuses that pipelines write

At its end a pipeline merges the status it has written into the status of the
object, and the last pipeline of a workflow marks it as completed. Statuses are
maps of arbitrary values. Everything is overwritten key by key, except for the
conditions, which are merged by their types.
-/

namespace Kratix.WorkCreator

open Apiserver

/-! ### Statuses -/

/-- What a status can hold. -/
inductive Value
  | null
  | bool (b : Bool)
  | number (text : String)
  | string (text : String)
  | list (items : List Value)
  | map (entries : List (String × Value))

abbrev Status := StringMap Value

def Value.field (name : String) : Value → Option Value
  | .map entries => (entries.find? fun e => e.1 = name).map Prod.snd
  | _ => none

def Value.asString : Value → Option String
  | .string text => some text
  | _ => none

def Value.asList : Value → Option (List Value)
  | .list items => some items
  | _ => none

/-- The type of a condition, if it is a map with a string as its type. -/
def conditionType (condition : Value) : Option String :=
  (condition.field "type").bind Value.asString

/-! ### MergeStatuses -/

/-- The orders in which the maps of one merge are iterated. -/
structure Iteration where
  statusKeys : List String → List String
  conditionTypes : List String → List String
  statusKeys_perm : ∀ l, (statusKeys l).Perm l
  conditionTypes_perm : ∀ l, (conditionTypes l).Perm l

/-- The conditions by their types; incoming ones replace existing ones. -/
def mergedByType (existing incoming : List Value) : StringMap Value :=
  Keyed.collect conditionType incoming (Keyed.collect conditionType existing ∅)

def mergeConditions (it : Iteration) (existing incoming : List Value) : List Value :=
  let merged := mergedByType existing incoming
  Keyed.listed (it.conditionTypes merged.keys) merged

/-- The value of a key that the incoming status holds. -/
def overlay (it : Iteration) (key : String) (current : Option Value) (v : Value) : Value :=
  if key = "conditions" then
    match current.bind Value.asList, v.asList with
    | some existing, some incoming => .list (mergeConditions it existing incoming)
    | _, _ => v
  else v

/-- One round of the loop over the incoming status. -/
def visit (it : Iteration) (incoming result : Status) (key : String) : Status :=
  match incoming.lookup key with
  | none => result
  | some v => result.insert key (overlay it key (result.lookup key) v)

/-- A copy of the existing status, overwritten key by key. -/
def mergeRecursive (it : Iteration) (existing incoming : Status) : Status :=
  (it.statusKeys incoming.keys).foldl (visit it incoming) existing

def mergeStatuses (it : Iteration) (existing incoming : Status) : Status :=
  mergeRecursive it existing incoming

/-! ### MarkAsCompleted -/

def completedType : String := "ConfigureWorkflowCompleted"

/-- The condition as it is written out; `now` is the text of the current time. -/
def completedCondition (now : String) : Value :=
  .map [("lastTransitionTime", .string now), ("message", .string "Pipelines completed"),
    ("reason", .string "PipelinesExecutedSuccessfully"), ("status", .string "True"),
    ("type", .string completedType)]

/-- Conditions that are missing, or are not a list, start anew. -/
def updateConditions (conditions : Option (List Value)) (type : String) (newCondition : Value) :
    List Value :=
  match conditions with
  | none => [newCondition]
  | some l => Keyed.put conditionType type newCondition l

def markAsCompleted (now : String) (status : Status) : Status :=
  let currentMessage := ((status.lookup "message").bind Value.asString).getD ""
  let status :=
    if currentMessage = "Pending" then status.insert "message" (.string "Resource requested")
    else status
  let existingConditions := (status.lookup "conditions").bind Value.asList
  status.insert "conditions"
    (.list (updateConditions existingConditions completedType (completedCondition now)))

/-- What one pipeline makes of the status. -/
def updatedStatus (it : Iteration) (now : String) (isLastPipeline : Bool)
    (existing incoming : Status) : Status :=
  let merged := mergeStatuses it existing incoming
  if isLastPipeline then markAsCompleted now merged else merged

/-! ### What a status says -/

variable {it it' : Iteration} {s a b c : Status}

/-- The conditions are missing, or each is a map with a type of its own. -/
def WellFormed (s : Status) : Prop :=
  ∀ v, s.lookup "conditions" = some v → ∃ l, v = .list l ∧ Keyed.Distinct conditionType l

/-- The list of conditions, which is empty if it is missing. -/
def conditionsOf (s : Status) : List Value :=
  ((s.lookup "conditions").bind Value.asList).getD []

/-- The content of a status: whether there are conditions, the condition of each
type, and the value of every other key. -/
@[ext]
structure Content where
  hasConditions : Bool
  condition : String → Option Value
  field : String → Option Value

def content (s : Status) : Content where
  hasConditions := (s.lookup "conditions").isSome
  condition := Keyed.entry conditionType (conditionsOf s)
  field := fun key => if key = "conditions" then none else s.lookup key

/-- The same status up to the order of the conditions. -/
structure SameUpToOrder (s s' : Status) : Prop where
  fields : ∀ key, key ≠ "conditions" → s.lookup key = s'.lookup key
  conditions : (s.lookup "conditions" = none ∧ s'.lookup "conditions" = none) ∨
    ∃ l l', s.lookup "conditions" = some (.list l) ∧ s'.lookup "conditions" = some (.list l') ∧
      l.Perm l'

theorem sameUpToOrder_of_content (hs : WellFormed s) (ha : WellFormed a)
    (h : content s = content a) : SameUpToOrder s a := by
  have hhas : (s.lookup "conditions").isSome = (a.lookup "conditions").isSome :=
    congrArg Content.hasConditions h
  have hcondition := congrFun (congrArg Content.condition h)
  have hfield := congrFun (congrArg Content.field h)
  refine ⟨fun key hkey => ?_, ?_⟩
  · have hkey' := hfield key
    simpa only [content, if_neg hkey] using hkey'
  · cases hc : s.lookup "conditions" with
    | none =>
      rw [hc] at hhas
      exact Or.inl ⟨rfl, by simpa using hhas.symm⟩
    | some v =>
      rw [hc] at hhas
      obtain ⟨v', hc'⟩ := Option.isSome_iff_exists.mp hhas.symm
      obtain ⟨l, rfl, hl⟩ := hs v hc
      obtain ⟨l', rfl, hl'⟩ := ha v' hc'
      refine Or.inr ⟨l, l', rfl, hc', (hl.perm_iff hl').mpr fun type => ?_⟩
      have htype := hcondition type
      simpa only [content, conditionsOf, hc, hc', Option.bind_some, Value.asList,
        Option.getD_some] using htype

namespace Content

/-- The right-biased merge: what the second one has wins. -/
instance : Mul Content where
  mul x y := ⟨x.hasConditions || y.hasConditions,
    fun type => (y.condition type).or (x.condition type),
    fun key => (y.field key).or (x.field key)⟩

instance : One Content where
  one := ⟨false, fun _ => none, fun _ => none⟩

theorem mul_def (x y : Content) : x * y = ⟨x.hasConditions || y.hasConditions,
    fun type => (y.condition type).or (x.condition type),
    fun key => (y.field key).or (x.field key)⟩ := rfl

theorem one_def : (1 : Content) = ⟨false, fun _ => none, fun _ => none⟩ := rfl

instance : Monoid Content where
  mul_assoc x y z := by
    simp only [mul_def, Bool.or_assoc, Option.or_assoc]
  one_mul x := by
    simp [mul_def, one_def]
  mul_one x := by
    simp [mul_def, one_def]

theorem mul_self (x : Content) : x * x = x := by
  simp only [mul_def, Bool.or_self, Option.or_self]

end Content

/-! ### What a merge holds -/

theorem lookup_visit (incoming result : Status) (key key' : String) :
    (visit it incoming result key).lookup key' =
      if key' = key then
        ((incoming.lookup key).map (overlay it key (result.lookup key))).or (result.lookup key')
      else result.lookup key' := by
  unfold visit
  cases hv : incoming.lookup key with
  | none => simp
  | some v =>
    by_cases h : key' = key
    · subst h
      simp [AList.lookup_insert]
    · rw [AList.lookup_insert_ne h, if_neg h]

/-- Keys do not interfere, in whatever order they are visited. -/
theorem lookup_foldl_visit (incoming : Status) (key : String) {keys : List String}
    (hnodup : keys.Nodup) (result : Status) :
    (keys.foldl (visit it incoming) result).lookup key =
      if key ∈ keys then
        ((incoming.lookup key).map (overlay it key (result.lookup key))).or (result.lookup key)
      else result.lookup key := by
  induction keys generalizing result with
  | nil => rfl
  | cons k keys ih =>
    obtain ⟨hk, hnodup⟩ := List.nodup_cons.mp hnodup
    rw [List.foldl_cons, ih hnodup, lookup_visit]
    by_cases h : key = k
    · subst h
      simp [hk]
    · simp [h]

theorem lookup_mergeStatuses (it : Iteration) (a b : Status) (key : String) :
    (mergeStatuses it a b).lookup key =
      ((b.lookup key).map (overlay it key (a.lookup key))).or (a.lookup key) := by
  have hperm := it.statusKeys_perm b.keys
  have hmem : key ∈ it.statusKeys b.keys ↔ key ∈ b := hperm.mem_iff.trans AList.mem_keys.symm
  rw [mergeStatuses, mergeRecursive, lookup_foldl_visit b key (hperm.nodup_iff.mpr b.keys_nodup)]
  by_cases h : key ∈ b
  · rw [if_pos (hmem.mpr h)]
  · rw [if_neg fun hk => h (hmem.mp hk), AList.lookup_eq_none.mpr h]
    rfl

theorem proper_mergedByType (l l' : List Value) :
    Keyed.Proper conditionType (mergedByType l l') := by
  refine Keyed.proper_collect _ (Keyed.proper_collect _ fun key v h => ?_)
  rw [AList.lookup_empty] at h
  cases h

theorem distinct_mergeConditions (it : Iteration) (l l' : List Value) :
    Keyed.Distinct conditionType (mergeConditions it l l') :=
  Keyed.distinct_listed (proper_mergedByType l l') (it.conditionTypes_perm _)

theorem entry_mergeConditions (it : Iteration) {l l' : List Value}
    (hl : Keyed.Distinct conditionType l) (hl' : Keyed.Distinct conditionType l') (type : String) :
    Keyed.entry conditionType (mergeConditions it l l') type =
      (Keyed.entry conditionType l' type).or (Keyed.entry conditionType l type) := by
  rw [mergeConditions, Keyed.entry_listed (proper_mergedByType l l') (it.conditionTypes_perm _),
    mergedByType, Keyed.lookup_collect hl', Keyed.lookup_collect hl, AList.lookup_empty,
    Option.or_none]

theorem conditionsOf_of_none (h : s.lookup "conditions" = none) : conditionsOf s = [] := by
  rw [conditionsOf, h]
  rfl

theorem conditionsOf_of_some {l : List Value} (h : s.lookup "conditions" = some (.list l)) :
    conditionsOf s = l := by
  rw [conditionsOf, h]
  rfl

/-- The conditions of one side alone stay, those of both are merged. -/
theorem lookup_conditions_mergeStatuses (it : Iteration) (ha : WellFormed a) (hb : WellFormed b) :
    (b.lookup "conditions" = none ∧
      (mergeStatuses it a b).lookup "conditions" = a.lookup "conditions") ∨
    (a.lookup "conditions" = none ∧
      (mergeStatuses it a b).lookup "conditions" = b.lookup "conditions") ∨
    ∃ l l', a.lookup "conditions" = some (.list l) ∧ b.lookup "conditions" = some (.list l') ∧
      Keyed.Distinct conditionType l ∧ Keyed.Distinct conditionType l' ∧
      (mergeStatuses it a b).lookup "conditions" = some (.list (mergeConditions it l l')) := by
  rw [lookup_mergeStatuses]
  cases hvb : b.lookup "conditions" with
  | none => exact Or.inl ⟨rfl, rfl⟩
  | some v =>
    obtain ⟨l', rfl, hl'⟩ := hb v hvb
    cases hva : a.lookup "conditions" with
    | none => exact Or.inr (Or.inl ⟨rfl, rfl⟩)
    | some w =>
      obtain ⟨l, rfl, hl⟩ := ha w hva
      exact Or.inr (Or.inr ⟨l, l', rfl, rfl, hl, hl', rfl⟩)

theorem wellFormed_mergeStatuses (it : Iteration) (ha : WellFormed a) (hb : WellFormed b) :
    WellFormed (mergeStatuses it a b) := by
  intro v hv
  rcases lookup_conditions_mergeStatuses it ha hb with ⟨-, h⟩ | ⟨-, h⟩ | ⟨l, l', -, -, -, -, h⟩
  · exact ha v (h ▸ hv)
  · exact hb v (h ▸ hv)
  · rw [h] at hv
    cases hv
    exact ⟨_, rfl, distinct_mergeConditions it l l'⟩

/-- A merge holds the right-biased merge of the contents. -/
theorem content_mergeStatuses (it : Iteration) (ha : WellFormed a) (hb : WellFormed b) :
    content (mergeStatuses it a b) = content a * content b := by
  have hfield (key : String) : (content (mergeStatuses it a b)).field key =
      ((content b).field key).or ((content a).field key) := by
    by_cases hkey : key = "conditions"
    · simp [content, hkey]
    · have hoverlay : overlay it key (a.lookup key) = id := by
        funext v
        simp [overlay, hkey]
      simp only [content, if_neg hkey]
      rw [lookup_mergeStatuses, hoverlay, Option.map_id]
      rfl
  have hrest : (content (mergeStatuses it a b)).hasConditions =
        ((content a).hasConditions || (content b).hasConditions) ∧
      ∀ type, (content (mergeStatuses it a b)).condition type =
        ((content b).condition type).or ((content a).condition type) := by
    rcases lookup_conditions_mergeStatuses it ha hb with
      ⟨hnone, h⟩ | ⟨hnone, h⟩ | ⟨l, l', hla, hlb, hl, hl', h⟩
    · have hsame : conditionsOf (mergeStatuses it a b) = conditionsOf a := by
        rw [conditionsOf, h, conditionsOf]
      simp only [content, h, hnone, hsame, conditionsOf_of_none hnone]
      exact ⟨by simp, fun type => rfl⟩
    · have hsame : conditionsOf (mergeStatuses it a b) = conditionsOf b := by
        rw [conditionsOf, h, conditionsOf]
      simp only [content, h, hnone, hsame, conditionsOf_of_none hnone]
      exact ⟨by simp, fun type => (Option.or_none).symm⟩
    · simp only [content, h, hla, hlb, conditionsOf_of_some h, conditionsOf_of_some hla,
        conditionsOf_of_some hlb]
      exact ⟨by simp, entry_mergeConditions it hl hl'⟩
  exact Content.ext hrest.1 (funext hrest.2) (funext hfield)

theorem wellFormed_empty : WellFormed ∅ := by
  intro v hv
  rw [AList.lookup_empty] at hv
  cases hv

theorem content_empty : content ∅ = 1 := by
  have hconditions : conditionsOf ∅ = [] := conditionsOf_of_none (AList.lookup_empty _)
  refine Content.ext ?_ ?_ ?_
  · simp [content, Content.one_def]
  · simp only [content, hconditions]
    rfl
  · simp [content, Content.one_def]

/-! ### The statuses of several pipelines -/

/-- The statuses of pipelines that run one after another, each with its own orders. -/
def mergeAll (existing : Status) (statuses : List (Iteration × Status)) : Status :=
  statuses.foldl (fun status incoming => mergeStatuses incoming.1 status incoming.2) existing

theorem wellFormed_mergeAll {statuses : List (Iteration × Status)} (hs : WellFormed s)
    (h : ∀ x ∈ statuses, WellFormed x.2) : WellFormed (mergeAll s statuses) := by
  induction statuses generalizing s with
  | nil => exact hs
  | cons x rest ih =>
    exact ih (wellFormed_mergeStatuses x.1 hs (h x List.mem_cons_self)) fun y hy =>
      h y (List.mem_cons_of_mem _ hy)

theorem content_mergeAll {statuses : List (Iteration × Status)} (hs : WellFormed s)
    (h : ∀ x ∈ statuses, WellFormed x.2) :
    content (mergeAll s statuses) = content s * (statuses.map fun x => content x.2).prod := by
  induction statuses generalizing s with
  | nil => simp [mergeAll]
  | cons x rest ih =>
    have hx := h x List.mem_cons_self
    have hmerge := ih (wellFormed_mergeStatuses x.1 hs hx) fun y hy =>
      h y (List.mem_cons_of_mem _ hy)
    rw [List.map_cons, List.prod_cons, ← mul_assoc, ← content_mergeStatuses x.1 hs hx, ← hmerge]
    rfl

/-- In a product, the last factor that has something to say wins. -/
theorem Content.prod_eq_findSome {g : Content → Option Value} (hone : g 1 = none)
    (hmul : ∀ x y, g (x * y) = (g y).or (g x)) (l : List Content) :
    g l.prod = l.reverse.findSome? g := by
  induction l with
  | nil => exact hone
  | cons x rest ih =>
    rw [List.prod_cons, hmul, ih, List.reverse_cons, List.findSome?_append]
    cases hg : g x <;> simp [hg]

theorem mergeAll_eq_findSome {statuses : List (Iteration × Status)} (hs : WellFormed s)
    (h : ∀ x ∈ statuses, WellFormed x.2) {g : Content → Option Value} (hone : g 1 = none)
    (hmul : ∀ x y, g (x * y) = (g y).or (g x)) :
    g (content (mergeAll s statuses)) =
      (s :: statuses.map Prod.snd).reverse.findSome? fun x => g (content x) := by
  have hprod : content s * (statuses.map fun x => content x.2).prod =
      ((s :: statuses.map Prod.snd).map content).prod := by
    rw [List.map_cons, List.prod_cons, List.map_map]
    rfl
  rw [content_mergeAll hs h, hprod, Content.prod_eq_findSome hone hmul, ← List.map_reverse,
    List.findSome?_map]
  rfl

/-! ### What marking as completed changes -/

theorem conditionType_completedCondition (now : String) :
    conditionType (completedCondition now) = some completedType := rfl

/-- The status is completed: one condition is set, and a pending message is replaced. -/
structure Completes (now : String) (s r : Status) : Prop where
  wellFormed : WellFormed r
  fields : ∀ key, key ≠ "conditions" → key ≠ "message" → r.lookup key = s.lookup key
  message : r.lookup "message" =
    if (s.lookup "message").bind Value.asString = some "Pending" then
      some (.string "Resource requested")
    else s.lookup "message"
  conditions : ∀ type, Keyed.entry conditionType (conditionsOf r) type =
    if type = completedType then some (completedCondition now)
    else Keyed.entry conditionType (conditionsOf s) type

theorem lookup_markAsCompleted (now : String) (s : Status) (key : String) :
    (markAsCompleted now s).lookup key =
      if key = "conditions" then some (.list (updateConditions
        ((s.lookup "conditions").bind Value.asList) completedType (completedCondition now)))
      else if key = "message" ∧ (s.lookup "message").bind Value.asString = some "Pending" then
        some (.string "Resource requested")
      else s.lookup key := by
  have hpending : ((s.lookup "message").bind Value.asString).getD "" = "Pending" ↔
      (s.lookup "message").bind Value.asString = some "Pending" := by
    cases (s.lookup "message").bind Value.asString <;> simp
  have hne : ("conditions" : String) ≠ "message" := by decide
  unfold markAsCompleted
  simp only [hpending]
  by_cases hmessage : (s.lookup "message").bind Value.asString = some "Pending"
  · simp only [hmessage, if_true, AList.lookup_insert_ne hne]
    by_cases hkey : key = "conditions"
    · rw [hkey, AList.lookup_insert, if_pos rfl]
    · rw [AList.lookup_insert_ne hkey, if_neg hkey]
      by_cases hm : key = "message"
      · rw [hm, AList.lookup_insert, if_pos ⟨rfl, trivial⟩]
      · rw [AList.lookup_insert_ne hm, if_neg fun h => hm h.1]
  · simp only [hmessage, if_false, and_false]
    by_cases hkey : key = "conditions"
    · rw [hkey, AList.lookup_insert, if_pos rfl]
    · rw [AList.lookup_insert_ne hkey, if_neg hkey]

theorem updateConditions_eq (hs : WellFormed s) (new : Value) :
    updateConditions ((s.lookup "conditions").bind Value.asList) completedType new =
      Keyed.put conditionType completedType new (conditionsOf s) := by
  cases hv : s.lookup "conditions" with
  | none =>
    rw [conditionsOf_of_none hv]
    rfl
  | some v =>
    obtain ⟨l, rfl, -⟩ := hs v hv
    rw [conditionsOf_of_some hv]
    rfl

theorem distinct_conditionsOf (hs : WellFormed s) :
    Keyed.Distinct conditionType (conditionsOf s) := by
  cases hv : s.lookup "conditions" with
  | none =>
    rw [conditionsOf_of_none hv]
    exact Keyed.distinct_nil
  | some v =>
    obtain ⟨l, rfl, hl⟩ := hs v hv
    rwa [conditionsOf_of_some hv]

theorem completes_markAsCompleted (now : String) (hs : WellFormed s) :
    Completes now s (markAsCompleted now s) := by
  have hconditions : (markAsCompleted now s).lookup "conditions" = some (.list
      (Keyed.put conditionType completedType (completedCondition now) (conditionsOf s))) := by
    rw [lookup_markAsCompleted, if_pos rfl, updateConditions_eq hs]
  refine ⟨?_, fun key hc hm => ?_, ?_, fun type => ?_⟩
  · intro v hv
    rw [hconditions] at hv
    cases hv
    exact ⟨_, rfl, Keyed.distinct_put (distinct_conditionsOf hs)
      (conditionType_completedCondition now)⟩
  · rw [lookup_markAsCompleted, if_neg hc, if_neg fun h => hm h.1]
  · rw [lookup_markAsCompleted, if_neg (by decide)]
    simp only [true_and]
  · rw [conditionsOf_of_some hconditions,
      Keyed.entry_put (conditionType_completedCondition now)]

theorem markAsCompleted_twice (now now' : String) (hs : WellFormed s) :
    SameUpToOrder (markAsCompleted now' (markAsCompleted now s)) (markAsCompleted now' s) := by
  have hfirst := completes_markAsCompleted now hs
  have hsecond := completes_markAsCompleted now' hfirst.wellFormed
  have honce := completes_markAsCompleted now' hs
  have hhas (now : String) (s : Status) :
      ((markAsCompleted now s).lookup "conditions").isSome = true := by
    rw [lookup_markAsCompleted, if_pos rfl]
    rfl
  refine sameUpToOrder_of_content hsecond.wellFormed honce.wellFormed (Content.ext ?_ ?_ ?_)
  · exact (hhas now' (markAsCompleted now s)).trans (hhas now' s).symm
  · funext type
    refine (hsecond.conditions type).trans (Eq.trans ?_ (honce.conditions type).symm)
    by_cases htype : type = completedType
    · rw [if_pos htype, if_pos htype]
    · rw [if_neg htype, if_neg htype, hfirst.conditions, if_neg htype]
  · funext key
    by_cases hc : key = "conditions"
    · simp [content, hc]
    simp only [content, if_neg hc]
    by_cases hm : key = "message"
    · rw [hm, hsecond.message, honce.message, hfirst.message]
      by_cases hpending : (s.lookup "message").bind Value.asString = some "Pending"
      · simp [hpending, Value.asString]
      · simp [hpending]
    · rw [hsecond.fields key hc hm, hfirst.fields key hc hm, honce.fields key hc hm]

/-! ### A whole workflow -/

/-- What the pipelines of a workflow make of the status, one after the other. -/
def updateAll (existing : Status) : List (Iteration × String × Status) → Status
  | [] => existing
  | [x] => updatedStatus x.1 x.2.1 true existing x.2.2
  | x :: y :: rest => updateAll (updatedStatus x.1 x.2.1 false existing x.2.2) (y :: rest)

theorem updateAll_concat (existing : Status) (pipelines : List (Iteration × String × Status))
    (x : Iteration × String × Status) :
    updateAll existing (pipelines ++ [x]) = markAsCompleted x.2.1
      (mergeAll existing ((pipelines ++ [x]).map fun y => (y.1, y.2.2))) := by
  induction pipelines generalizing existing with
  | nil => rfl
  | cons y rest ih =>
    have hnext : updateAll existing (y :: rest ++ [x]) =
        updateAll (mergeStatuses y.1 existing y.2.2) (rest ++ [x]) := by
      cases rest <;> rfl
    rw [hnext, ih]
    rfl

/-- Maps are iterated in the opposite of the order in which they were filled. -/
def oldestEntryFirst : Iteration :=
  ⟨List.reverse, List.reverse, List.reverse_perm, List.reverse_perm⟩

def pendingStatus : Status :=
  ((∅ : Status).insert "message" (.string "Pending")).insert "conditions"
    (.list [.map [("type", .string "Ready")], .map [("type", .string completedType)]])

theorem wellFormed_pendingStatus : WellFormed pendingStatus := by
  intro v hv
  rw [pendingStatus, AList.lookup_insert] at hv
  cases hv
  exact ⟨_, rfl, by simp [conditionType, Value.field, Value.asString], by decide⟩

end Kratix.WorkCreator
