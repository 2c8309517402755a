import Mathlib.Data.Set.Card
import StackLine.Distinct

/-!
The classes of an equality, and how many members a set has.

An equality is partial when a value may differ from itself. A set keeps one member of each class and
every object whose value differs from itself, in whatever order they are put in, as long as the hash
does not tell equal values apart.
-/

namespace StackLine

variable {α : Type} {same : α → α → Bool} {x y z : α} {xs ys : List α}

/-- Symmetric and transitive. A value need not be equal to itself. -/
structure IsPartialEquality (same : α → α → Bool) : Prop where
  symm : ∀ {x y}, same x y = true → same y x = true
  trans : ∀ {x y z}, same x y = true → same y z = true → same x z = true

/-- The classes of the values of a list: of each, all that it is equal to. -/
def classes (same : α → α → Bool) (xs : List α) : Set (Set α) :=
  (fun x => {y | same x y = true}) '' {x | x ∈ xs}

lemma mem_classes {c : Set α} : c ∈ classes same xs ↔ ∃ x ∈ xs, {y | same x y = true} = c :=
  Iff.rfl

@[simp] lemma classes_nil : classes same [] = ∅ := by simp [classes]

@[simp] lemma classes_cons :
    classes same (x :: xs) = insert {y | same x y = true} (classes same xs) := by
  ext c
  simp only [Set.mem_insert_iff, mem_classes, List.exists_mem_cons_iff, eq_comm]

lemma finite_classes (same : α → α → Bool) (xs : List α) : (classes same xs).Finite :=
  xs.finite_toSet.image _

lemma classes_eq_of_perm (h : xs.Perm ys) : classes same xs = classes same ys := by
  ext c
  simp only [mem_classes, h.mem_iff]

namespace IsPartialEquality

variable (h : IsPartialEquality same)
include h

/-- What is equal to anything is equal to itself. -/
lemma self_of_same (hxy : same x y = true) : same x x = true := h.trans hxy (h.symm hxy)

lemma class_eq_class (hxy : same x y = true) : {z | same x z = true} = {z | same y z = true} :=
  Set.ext fun _ => ⟨h.trans (h.symm hxy), h.trans hxy⟩

/-- The class of a value is among those of a list exactly if the value is equal to one there. -/
lemma class_mem_classes_iff (hx : same x x = true) :
    {z | same x z = true} ∈ classes same (xs.filter fun y => same y y) ↔
      ∃ y ∈ xs, same x y = true := by
  rw [mem_classes]
  constructor
  · rintro ⟨y, hy, hclass⟩
    have hyx : x ∈ {z | same y z = true} := hclass ▸ hx
    exact ⟨y, List.mem_of_mem_filter hy, h.symm hyx⟩
  · rintro ⟨y, hy, hxy⟩
    exact ⟨y, List.mem_filter.2 ⟨hy, h.self_of_same (h.symm hxy)⟩, (h.class_eq_class hxy).symm⟩

/-- **The members are the classes, and the values that are not equal to themselves.** -/
theorem distinctCount_eq (xs : List α) :
    distinctCount same xs =
      (classes same (xs.filter fun x => same x x)).ncard + xs.countP fun x => !same x x := by
  induction xs with
  | nil => simp [distinctCount]
  | cons x rest ih =>
    rw [distinctCount, ih]
    by_cases hx : same x x = true
    · rw [List.filter_cons, if_pos hx, classes_cons, List.countP_cons_of_neg (by simp [hx])]
      by_cases hrest : ∃ y ∈ rest, same x y = true
      · -- the class of `x` has been counted
        rw [if_pos (List.any_eq_true.2 hrest),
          Set.insert_eq_of_mem ((h.class_mem_classes_iff hx).2 hrest)]
      · rw [if_neg (mt List.any_eq_true.1 hrest),
          Set.ncard_insert_of_notMem (mt (h.class_mem_classes_iff hx).1 hrest)
            (finite_classes same _)]
        omega
    · -- `x` is equal to nothing
      have hrest : ¬rest.any (same x) = true := by
        intro hany
        obtain ⟨_, -, hxy⟩ := List.any_eq_true.1 hany
        exact hx (h.self_of_same hxy)
      rw [List.filter_cons, if_neg hx, List.countP_cons_of_pos (by simp [hx]), if_neg hrest]
      omega

/-- The same, where it is known which values are not equal to themselves. -/
lemma distinctCount_eq_of_self_iff {nan : α → Prop} [DecidablePred nan]
    (hself : ∀ x, same x x = true ↔ ¬nan x) (xs : List α) :
    distinctCount same xs = (classes same (xs.filter (¬nan ·))).ncard + xs.countP (nan ·) := by
  have hfilter : (fun x => same x x) = fun x => decide ¬nan x :=
    funext fun x => Bool.eq_iff_iff.2 ((hself x).trans decide_eq_true_iff.symm)
  have hcount : (fun x => !same x x) = fun x => decide (nan x) :=
    funext fun x => by rw [congrFun hfilter x, decide_not, Bool.not_not]
  rw [h.distinctCount_eq, hfilter, hcount]

lemma distinctCount_eq_of_perm (hperm : xs.Perm ys) :
    distinctCount same xs = distinctCount same ys := by
  rw [h.distinctCount_eq, h.distinctCount_eq, classes_eq_of_perm (hperm.filter _),
    hperm.countP_eq]

end IsPartialEquality

/-! ### Sets that go by hashes -/

namespace Object

variable {hash : ℕ → α → ℤ} {a b : Object α} {objects : List (Object α)}

lemma mem_of_mem_members (ha : a ∈ members hash same objects) : a ∈ objects := by
  induction objects using List.reverseRecOn with
  | nil => exact ha
  | append_singleton objects b ih =>
    rw [members_concat, insert] at ha
    split at ha
    · exact List.mem_append_left _ (ih ha)
    · rcases List.mem_cons.1 ha with rfl | ha
      · exact List.mem_append_right _ (List.mem_singleton_self a)
      · exact List.mem_append_left _ (ih ha)

lemma nodup_of_concat (hnodup : ((objects ++ [b]).map identity).Nodup) :
    (objects.map identity).Nodup := by
  rw [List.map_append] at hnodup
  exact hnodup.of_append_left

/-- An object made apart from others is no member of their set. -/
lemma identity_ne_of_mem_members (hnodup : ((objects ++ [b]).map identity).Nodup)
    (ha : a ∈ members hash same objects) : a.identity ≠ b.identity := by
  rw [List.map_append, List.nodup_append] at hnodup
  obtain ⟨-, -, hapart⟩ := hnodup
  exact hapart _ (List.mem_map_of_mem (mem_of_mem_members ha)) _ (List.mem_singleton_self _)

end Object

/-- Equality is partial, and equal values have one hash, whatever objects hold them. -/
structure RespectsHash (hash : ℕ → α → ℤ) (same : α → α → Bool) : Prop
    extends IsPartialEquality same where
  hash_eq : ∀ {x y}, same x y = true → ∀ i j, hash i x = hash j y

namespace RespectsHash

open Object

variable {hash : ℕ → α → ℤ} {a b : Object α} {objects : List (Object α)}
variable (h : RespectsHash hash same)
include h

/-- Two objects are told apart by nothing but equality. -/
lemma takenFor_of_ne (hne : a.identity ≠ b.identity) :
    takenFor hash same a b = same a.value b.value := by
  rw [takenFor, beq_false_of_ne hne, Bool.false_or]
  cases hab : same a.value b.value with
  | false => rw [Bool.and_false]
  | true => rw [h.hash_eq hab a.identity b.identity, BEq.rfl, Bool.and_true]

/-- Of objects made apart, each is a member or equal to one. -/
lemma exists_mem_members (hnodup : (objects.map identity).Nodup) (hb : b ∈ objects) :
    ∃ a ∈ members hash same objects, a = b ∨ same a.value b.value = true := by
  induction objects using List.reverseRecOn with
  | nil => cases hb
  | append_singleton objects c ih =>
    rw [members_concat, Object.insert]
    rcases List.mem_append.1 hb with hb | hb
    · obtain ⟨a, ha, hab⟩ := ih (nodup_of_concat hnodup) hb
      split
      · exact ⟨a, ha, hab⟩
      · exact ⟨a, List.mem_cons_of_mem c ha, hab⟩
    · obtain rfl := List.mem_singleton.1 hb
      split_ifs with htaken
      · obtain ⟨a, ha, hab⟩ := List.any_eq_true.1 htaken
        rw [h.takenFor_of_ne (identity_ne_of_mem_members hnodup ha)] at hab
        exact ⟨a, ha, .inr hab⟩
      · exact ⟨b, List.mem_cons_self, .inl rfl⟩

/-- A new object is taken for a member exactly if its value is equal to that of an object before
it. -/
lemma any_members_takenFor (hnodup : ((objects ++ [b]).map identity).Nodup) :
    (members hash same objects).any (takenFor hash same · b) =
      (objects.map value).any (same b.value) := by
  rw [Bool.eq_iff_iff, List.any_eq_true, List.any_map, List.any_eq_true]
  constructor
  · rintro ⟨a, ha, hab⟩
    rw [h.takenFor_of_ne (identity_ne_of_mem_members hnodup ha)] at hab
    exact ⟨a, mem_of_mem_members ha, h.symm hab⟩
  · rintro ⟨c, hc, hbc⟩
    -- the object may have been left out, but not the member that is equal to it
    obtain ⟨a, ha, hac⟩ := h.exists_mem_members (nodup_of_concat hnodup) hc
    refine ⟨a, ha, ?_⟩
    rw [h.takenFor_of_ne (identity_ne_of_mem_members hnodup ha)]
    rcases hac with rfl | hac
    · exact h.symm hbc
    · exact h.trans hac (h.symm hbc)

/-- **A set that goes by hashes has as many members as equality alone makes out.** -/
theorem length_members (hnodup : (objects.map identity).Nodup) :
    (members hash same objects).length = distinctCount same (objects.map value) := by
  rw [← h.distinctCount_eq_of_perm (objects.map value).reverse_perm]
  induction objects using List.reverseRecOn with
  | nil => rfl
  | append_singleton objects b ih =>
    -- the set looks behind for an equal value, so the count reads the list from its end
    rw [members_concat, Object.insert, h.any_members_takenFor hnodup, List.map_append,
      List.map_singleton, List.reverse_concat, distinctCount, ← ih (nodup_of_concat hnodup),
      List.any_reverse]
    split
    · rfl
    · rw [List.length_cons]

/-- An object put in twice is one member, also where its value is not equal to itself. -/
example :
    let objects : List (Object Unit) := [⟨0, ()⟩, ⟨0, ()⟩]
    (members (fun _ _ => 0) (fun _ _ => false) objects).length = 1 ∧
      distinctCount (fun _ _ => false) (objects.map value) = 2 := by decide

end RespectsHash

/-- An equality and the sets that go by hashes agree. All values but those that carry what is not a
number are equal to themselves, and equality is an equivalence on them; the set of some objects that
were made apart has one member for each class of such values, and one for each object with another
value. -/
structure Coheres (hash : ℕ → α → ℤ) (same : α → α → Bool) (nan : α → Prop)
    [DecidablePred nan] : Prop extends IsPartialEquality same where
  self_iff : ∀ x, same x x = true ↔ ¬nan x
  length_members : ∀ objects : List (Object α), (objects.map Object.identity).Nodup →
    (Object.members hash same objects).length =
      (classes same ((objects.map Object.value).filter (¬nan ·))).ncard
        + (objects.map Object.value).countP (nan ·)
  /-- The order does not matter. -/
  length_members_of_perm : ∀ objects others : List (Object α), objects.Perm others →
    (objects.map Object.identity).Nodup →
      (Object.members hash same objects).length = (Object.members hash same others).length
  /-- Equality alone makes out as many members. -/
  distinctCount_eq : ∀ xs : List α, distinctCount same xs =
    (classes same (xs.filter (¬nan ·))).ncard + xs.countP (nan ·)

/-- What is left to show of an equality is which values are equal to themselves. -/
theorem RespectsHash.coheres {hash : ℕ → α → ℤ} {nan : α → Prop} [DecidablePred nan]
    (h : RespectsHash hash same) (hself : ∀ x, same x x = true ↔ ¬nan x) :
    Coheres hash same nan where
  toIsPartialEquality := h.toIsPartialEquality
  self_iff := hself
  length_members objects hnodup := by
    rw [h.length_members hnodup, h.distinctCount_eq_of_self_iff hself]
  length_members_of_perm objects others hperm hnodup := by
    rw [h.length_members hnodup, h.length_members ((hperm.map _).nodup_iff.1 hnodup)]
    exact h.distinctCount_eq_of_perm (hperm.map _)
  distinctCount_eq xs := h.distinctCount_eq_of_self_iff hself xs

end StackLine
