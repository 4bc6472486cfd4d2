import RustyPotato.Commands.Hashes

/-! # What the loops of the variadic commands have written when they stop -/

namespace RustyPotato

open Cmd

/-- The texts before the first argument that is none. -/
def texts : List Bytes → List String
  | [] => []
  | b :: rest =>
    match fromUtf8 b with
    | some text => text :: texts rest
    | none => []

/-- The pairs of `MSET` before the first key that is no text. -/
def keyValues : List (Bytes × Bytes) → List (String × Bytes)
  | [] => []
  | p :: rest =>
    match fromUtf8 p.1 with
    | some key => (key, p.2) :: keyValues rest
    | none => []

/-- The pairs of `HSET` before the first field or value that is no text. -/
def fieldValues : List (Bytes × Bytes) → List (String × String)
  | [] => []
  | p :: rest =>
    match fromUtf8 p.1, fromUtf8 p.2 with
    | some field, some value => (field, value) :: fieldValues rest
    | _, _ => []

theorem textPlan_eq (step : String → Step) (args : List Bytes) :
    textPlan step args = (texts args).map step := by
  induction args with
  | nil => rfl
  | cons b rest ih =>
    unfold textPlan at *
    rw [loopPlan, texts]
    cases fromUtf8 b with
    | none => rfl
    | some text => rw [Option.map_some, List.map_cons, ← ih]; rfl

theorem msetSteps_eq (ps : List (Bytes × Bytes)) :
    msetSteps ps = (keyValues ps).map fun p => .on p.1 (.set (.string p.2)) := by
  induction ps with
  | nil => rfl
  | cons p rest ih =>
    unfold msetSteps at *
    rw [loopPlan, keyValues]
    cases fromUtf8 p.1 with
    | none => rfl
    | some key => rw [Option.map_some, List.map_cons, ← ih]; rfl

theorem hsetSteps_eq (key : String) (ps : List (Bytes × Bytes)) :
    hsetSteps key ps = (fieldValues ps).map fun p => .on key (.hset p.1 p.2) := by
  induction ps with
  | nil => rfl
  | cons p rest ih =>
    unfold hsetSteps at *
    rw [loopPlan, fieldValues]
    cases fromUtf8 p.1 with
    | none => rfl
    | some field =>
      cases fromUtf8 p.2 with
      | none => rfl
      | some value => rw [List.map_cons, ← ih]; rfl

/-- The value that the last of the pairs with this key gives it. -/
def lastOf {β : Type} (key : String) (ps : List (String × β)) : Option β := ps.reverse.lookup key

theorem lastOf_cons {β : Type} (key : String) (p : String × β) (ps : List (String × β)) :
    lastOf key (p :: ps) = (lastOf key ps).or (if key = p.1 then some p.2 else none) := by
  obtain ⟨k, v⟩ := p
  unfold lastOf
  rw [List.reverse_cons, List.lookup_append]
  congr 1
  by_cases h : key = k
  · simp [h]
  · simp [List.lookup_cons, h, beq_eq_false_iff_ne.mpr h]

section
variable (c : Clock) (k : String)

theorem actAll_delete (keys : List String) (e : Option Entry) :
    Step.actAll c k (keys.map fun key => .on key .delete) e = if k ∈ keys then none else e := by
  induction keys generalizing e with
  | nil => rfl
  | cons key keys ih =>
    rw [List.map_cons, Step.actAll_cons, ih, Step.act]
    by_cases h : k = key
    · simp [h, Op.apply]
    · simp [h]

theorem actAll_set (ps : List (String × Bytes)) (e : Option Entry) :
    Step.actAll c k (ps.map fun p => .on p.1 (.set (.string p.2))) e =
      match lastOf k ps with
      | some v => some ⟨.string v, none⟩
      | none => e := by
  induction ps generalizing e with
  | nil => rfl
  | cons p ps ih =>
    rw [List.map_cons, Step.actAll_cons, ih, Step.act, lastOf_cons]
    cases lastOf k ps with
    | some v => rfl
    | none => by_cases h : k = p.1 <;> simp [h, Op.apply]

/-- The hash after the pairs are written into it one after the other. -/
def hashWith (h : Hash) (ps : List (String × String)) : Hash :=
  ps.foldl (fun h p => h.insert p.1 p.2) h

theorem lookup_hashWith (h : Hash) (ps : List (String × String)) (field : String) :
    (hashWith h ps).lookup field = (lastOf field ps).or (h.lookup field) := by
  induction ps generalizing h with
  | nil => rfl
  | cons p ps ih =>
    change (hashWith (h.insert p.1 p.2) ps).lookup field = _
    rw [ih, lastOf_cons]
    cases lastOf field ps with
    | some v => rfl
    | none =>
      by_cases hf : field = p.1
      · rw [hf, Finmap.lookup_insert, if_pos rfl]
        rfl
      · simp [hf, Finmap.lookup_insert_of_ne _ hf]

theorem lastOf_eq_some {β : Type} (key : String) (v : β) (ps : List (String × β))
    (h : (ps.map Prod.fst).Nodup) : lastOf key ps = some v ↔ (key, v) ∈ ps := by
  induction ps generalizing v with
  | nil => simp [lastOf]
  | cons p ps ih =>
    rw [List.map_cons, List.nodup_cons] at h
    rw [lastOf_cons, List.mem_cons, ← ih v h.2]
    by_cases hkey : key = p.1
    · -- The key does not come back, so the first pair has the last word.
      have hnone : lastOf key ps = none := by
        refine Option.eq_none_iff_forall_ne_some.mpr fun w hw => h.1 ?_
        exact hkey ▸ List.mem_map_of_mem ((ih w h.2).mp hw)
      rw [hnone, if_pos hkey]
      simp [Prod.ext_iff, hkey, eq_comm]
    · simp [hkey, Prod.ext_iff]

/-- A hash is what its fields give when they are written into an empty one. -/
theorem hashWith_toList (order : IterOrder String) (h : Hash) :
    hashWith ∅ (order.toList h) = h := by
  refine Finmap.ext_lookup fun field => ?_
  rw [lookup_hashWith, Finmap.lookup_empty, Option.or_none]
  refine Option.ext fun v => ?_
  rw [lastOf_eq_some field v _ (order.nodup h), order.mem_iff]

theorem actAll_hset_hash (ps : List (String × String)) (h : Hash) (d : Option Int) :
    Step.actAll c k (ps.map fun p => .on k (.hset p.1 p.2)) (some ⟨.hash h, d⟩) =
      some ⟨.hash (hashWith h ps), d⟩ := by
  induction ps generalizing h with
  | nil => rfl
  | cons p ps ih =>
    rw [List.map_cons, Step.actAll_cons, Step.act, if_pos rfl, Op.apply, ih]
    rfl

theorem actAll_hset_missing (p : String × String) (ps : List (String × String)) :
    Step.actAll c k ((p :: ps).map fun p => .on k (.hset p.1 p.2)) none =
      some ⟨.hash (hashWith ∅ (p :: ps)), none⟩ := by
  rw [List.map_cons, Step.actAll_cons, Step.act, if_pos rfl, Op.apply, actAll_hset_hash]
  rfl

end

end RustyPotato
