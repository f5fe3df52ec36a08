/-
Fields of untyped objects: what a key holds after a field is put in, that putting fields in keeps
them in increasing order of their keys, and that with ordered keys a field is there exactly when its
key holds its value. A proper tree is one whose objects all have their keys in order.
-/
import TermMarkup.Raw
import Mathlib.Data.List.Nodup
import Mathlib.Data.String.Basic

namespace TermMarkup

theorem lookup_cons_ite {α : Type} (key k : String) (value : α) (rest : List (String × α)) :
    ((key, value) :: rest).lookup k = if k = key then some value else rest.lookup k := by
  by_cases h : k = key
  · subst h
    rw [List.lookup_cons_self, if_pos rfl]
  · rw [List.lookup_cons, beq_false_of_ne h, if_neg h]

theorem lookup_eq_none_of_notMem {α : Type} {key : String} {fields : List (String × α)}
    (h : key ∉ fields.map Prod.fst) : fields.lookup key = none := by
  rw [List.lookup_eq_none_iff]
  intro field hf
  rw [bne_iff_ne]
  rintro rfl
  exact h (List.mem_map.2 ⟨field, hf, rfl⟩)

theorem lookup_map_value {α β : Type} (f : α → β) (fields : List (String × α)) (key : String) :
    (fields.map fun field => (field.1, f field.2)).lookup key = (fields.lookup key).map f := by
  induction fields with
  | nil => rfl
  | cons field fields ih =>
    obtain ⟨name, value⟩ := field
    rw [List.map_cons, lookup_cons_ite, lookup_cons_ite, ih]
    split <;> rfl

theorem mem_of_lookup {α : Type} {fields : List (String × α)} {key : String} {value : α}
    (h : fields.lookup key = some value) : (key, value) ∈ fields := by
  obtain ⟨before, after, he, -⟩ := List.lookup_eq_some_iff.1 h
  rw [he]
  exact List.mem_append_right _ List.mem_cons_self

/-- Tables that differ in what one key holds hold the same under every other key. -/
theorem lookup_replace {α : Type} {key : String} {before after : List (String × α)}
    (h : key ∉ before.map Prod.fst) (old new : α) (k : String) :
    (before ++ (key, new) :: after).lookup k =
      if k = key then some new else (before ++ (key, old) :: after).lookup k := by
  rw [List.lookup_append, List.lookup_append, lookup_cons_ite, lookup_cons_ite]
  by_cases hk : k = key
  · subst hk
    rw [lookup_eq_none_of_notMem h, if_pos rfl, if_pos rfl]
    rfl
  · rw [if_neg hk, if_neg hk, if_neg hk]

namespace Raw

/-- What a key holds after a field is put in. -/
theorem lookup_insert (key k : String) (value : Raw) (fields : List (String × Raw)) :
    (insert key value fields).lookup k = if k = key then some value else fields.lookup k := by
  induction fields with
  | nil => exact lookup_cons_ite key k value []
  | cons field fields ih =>
    obtain ⟨name, held⟩ := field
    unfold insert
    split
    · exact lookup_cons_ite key k value _
    · split
      · rename_i he
        rw [beq_iff_eq] at he
        subst he
        rw [lookup_cons_ite, lookup_cons_ite]
        split <;> rfl
      · rename_i hne
        rw [beq_iff_eq] at hne
        rw [lookup_cons_ite, lookup_cons_ite, ih]
        by_cases hk : k = name
        · subst hk
          rw [if_pos rfl, if_pos rfl, if_neg (Ne.symm hne)]
        · rw [if_neg hk, if_neg hk]

theorem mem_insert {key : String} {value : Raw} {fields : List (String × Raw)}
    {field : String × Raw} (h : field ∈ insert key value fields) :
    field = (key, value) ∨ field ∈ fields := by
  induction fields with
  | nil => exact Or.inl (List.mem_singleton.1 h)
  | cons first fields ih =>
    unfold insert at h
    split at h
    · exact List.mem_cons.1 h
    · split at h
      · rcases List.mem_cons.1 h with h | h
        · exact Or.inl h
        · exact Or.inr (List.mem_cons_of_mem _ h)
      · rcases List.mem_cons.1 h with rfl | h
        · exact Or.inr List.mem_cons_self
        · rcases ih h with h | h
          · exact Or.inl h
          · exact Or.inr (List.mem_cons_of_mem _ h)

/-! ## Order -/

/-- Fields in increasing order of their keys. -/
def Ordered (fields : List (String × Raw)) : Prop :=
  fields.Pairwise fun a b => a.1 < b.1

theorem ordered_insert {fields : List (String × Raw)} (h : Ordered fields) (key : String)
    (value : Raw) : Ordered (insert key value fields) := by
  induction fields with
  | nil => exact List.pairwise_singleton _ _
  | cons first fields ih =>
    have hp := List.pairwise_cons.1 h
    unfold insert
    split
    · rename_i hlt
      refine List.pairwise_cons.2 ⟨fun field hf => ?_, h⟩
      rcases List.mem_cons.1 hf with rfl | hf
      · exact hlt
      · exact lt_trans hlt (hp.1 field hf)
    · rename_i hnlt
      split
      · rename_i he
        rw [beq_iff_eq] at he
        subst he
        exact List.pairwise_cons.2 ⟨hp.1, hp.2⟩
      · rename_i hne
        rw [beq_iff_eq] at hne
        refine List.pairwise_cons.2 ⟨fun field hf => ?_, ih hp.2⟩
        rcases mem_insert hf with rfl | hf
        · exact lt_of_le_of_ne (not_lt.1 hnlt) (Ne.symm hne)
        · exact hp.1 field hf

theorem Ordered.lookup_eq_some {fields : List (String × Raw)} (h : Ordered fields)
    {field : String × Raw} (hf : field ∈ fields) : fields.lookup field.1 = some field.2 := by
  induction fields with
  | nil => cases hf
  | cons first fields ih =>
    have hp := List.pairwise_cons.1 h
    rcases List.mem_cons.1 hf with rfl | hf
    · exact List.lookup_cons_self
    · have hb : (field.1 == first.1) = false := beq_false_of_ne (ne_of_gt (hp.1 field hf))
      rw [List.lookup_cons, hb]
      exact ih hp.2 hf

theorem Ordered.mem_iff {fields : List (String × Raw)} (h : Ordered fields) {field : String × Raw} :
    field ∈ fields ↔ fields.lookup field.1 = some field.2 :=
  ⟨h.lookup_eq_some, mem_of_lookup⟩

/-- Ordered fields are determined by what their keys hold. -/
theorem Ordered.eq_of_lookup {fields others : List (String × Raw)} (h : Ordered fields)
    (h' : Ordered others) (hl : ∀ key value, fields.lookup key = some value ↔
      others.lookup key = some value) : fields = others := by
  have hnodup {fields : List (String × Raw)} (h : Ordered fields) : fields.Nodup :=
    h.imp fun hlt he => absurd (congrArg Prod.fst he) (ne_of_lt hlt)
  have hperm : fields.Perm others := by
    rw [List.perm_ext_iff_of_nodup (hnodup h) (hnodup h')]
    intro field
    rw [h.mem_iff, h'.mem_iff, hl]
  exact hperm.eq_of_pairwise (fun _ _ _ _ hlt hgt => absurd hlt (lt_asymm hgt)) h h'

/-! ## Fields put in one after the other -/

/-- The fields with more put in, one after the other. -/
def insertAll (done fields : List (String × Raw)) : List (String × Raw) :=
  fields.foldl (fun done field => insert field.1 field.2 done) done

theorem ofFields_eq (fields : List (String × Raw)) :
    ofFields fields = .object (insertAll [] fields) := rfl

theorem insertAll_cons (done fields : List (String × Raw)) (field : String × Raw) :
    insertAll done (field :: fields) = insertAll (insert field.1 field.2 done) fields := rfl

theorem insertAll_append (done xs ys : List (String × Raw)) :
    insertAll done (xs ++ ys) = insertAll (insertAll done xs) ys :=
  List.foldl_append

theorem ordered_insertAll {done : List (String × Raw)} (h : Ordered done)
    (fields : List (String × Raw)) : Ordered (insertAll done fields) := by
  induction fields generalizing done with
  | nil => exact h
  | cons field fields ih => exact ih (ordered_insert h field.1 field.2)

theorem ordered_nil : Ordered [] := List.Pairwise.nil

theorem mem_insertAll {done fields : List (String × Raw)} {field : String × Raw}
    (h : field ∈ insertAll done fields) : field ∈ fields ∨ field ∈ done := by
  induction fields generalizing done with
  | nil => exact Or.inr h
  | cons first fields ih =>
    rcases ih h with h | h
    · exact Or.inl (List.mem_cons_of_mem _ h)
    · rcases mem_insert h with rfl | h
      · exact Or.inl List.mem_cons_self
      · exact Or.inr h

/-- With each key once among the fields put in, a key holds its value there, or else what it held
before. -/
theorem lookup_insertAll {done fields : List (String × Raw)} (h : (fields.map Prod.fst).Nodup)
    (k : String) : (insertAll done fields).lookup k = (fields.lookup k).or (done.lookup k) := by
  induction fields generalizing done with
  | nil => rfl
  | cons field fields ih =>
    obtain ⟨key, value⟩ := field
    rw [List.map_cons, List.nodup_cons] at h
    rw [insertAll_cons, ih h.2, lookup_insert, lookup_cons_ite]
    by_cases hk : k = key
    · subst hk
      rw [lookup_eq_none_of_notMem h.1, if_pos rfl, if_pos rfl]
      rfl
    · rw [if_neg hk, if_neg hk]

/-! ## The objects of a tree -/

mutual

/-- The fields of every object in a tree. -/
def objects : Raw → List (List (String × Raw))
  | .array items => allObjects items
  | .object fields => fields :: fieldObjects fields
  | _ => []

/-- The fields of every object in a list of trees. -/
def allObjects : List Raw → List (List (String × Raw))
  | [] => []
  | raw :: raws => objects raw ++ allObjects raws

def fieldObjects : List (String × Raw) → List (List (String × Raw))
  | [] => []
  | (_, raw) :: fields => objects raw ++ fieldObjects fields

end

theorem mem_allObjects {items : List Raw} {below : List (String × Raw)} :
    below ∈ allObjects items ↔ ∃ raw ∈ items, below ∈ raw.objects := by
  induction items with
  | nil => simp [allObjects]
  | cons raw items ih => simp [allObjects, ih]

theorem mem_fieldObjects {fields : List (String × Raw)} {below : List (String × Raw)} :
    below ∈ fieldObjects fields ↔ ∃ field ∈ fields, below ∈ field.2.objects := by
  induction fields with
  | nil => simp [fieldObjects]
  | cons field fields ih => simp [fieldObjects, ih]

theorem objects_subset_fieldObjects {fields : List (String × Raw)} {key : String} {raw : Raw}
    (h : (key, raw) ∈ fields) : raw.objects ⊆ fieldObjects fields :=
  fun _ hb => mem_fieldObjects.2 ⟨_, h, hb⟩

/-- Every object of the tree has its fields in order, each key once. -/
def Proper (raw : Raw) : Prop :=
  ∀ fields ∈ raw.objects, Ordered fields

instance (fields : List (String × Raw)) : Decidable (Ordered fields) :=
  inferInstanceAs (Decidable (fields.Pairwise fun a b => a.1 < b.1))

instance (raw : Raw) : Decidable raw.Proper :=
  inferInstanceAs (Decidable (∀ fields ∈ raw.objects, Ordered fields))

theorem proper_of_objects_eq_nil {raw : Raw} (h : raw.objects = []) : raw.Proper := by
  unfold Proper
  rw [h]
  exact fun _ hf => (by cases hf)

theorem proper_array {items : List Raw} :
    (Raw.array items).Proper ↔ ∀ raw ∈ items, raw.Proper := by
  unfold Proper
  rw [objects]
  simp only [mem_allObjects]
  exact ⟨fun h raw hr below hb => h below ⟨raw, hr, hb⟩, fun h below ⟨raw, hr, hb⟩ => h raw hr below hb⟩

theorem proper_object {fields : List (String × Raw)} :
    (Raw.object fields).Proper ↔ Ordered fields ∧ ∀ field ∈ fields, field.2.Proper := by
  unfold Proper
  rw [objects, List.forall_mem_cons]
  simp only [mem_fieldObjects]
  exact and_congr_right' ⟨fun h field hf below hb => h below ⟨field, hf, hb⟩,
    fun h below ⟨field, hf, hb⟩ => h field hf below hb⟩

theorem proper_ofFields {fields : List (String × Raw)} (h : ∀ field ∈ fields, field.2.Proper) :
    (ofFields fields).Proper := by
  refine proper_object.2 ⟨ordered_insertAll ordered_nil fields, fun field hm => ?_⟩
  exact h field ((mem_insertAll hm).resolve_right List.not_mem_nil)

end Raw

end TermMarkup
