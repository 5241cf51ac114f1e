import Mathlib

/-!
# Lists of parties

Library `Base`. A system keeps its parties in a list, gives each one its position as a name and
changes one of them in a step. The lemmas say what such a change does to counts and views of
the parties, how a history is cut at one of its events, and which entries a party adds.
-/

namespace Base

variable {α β : Type*}

section Modify

variable {l : List α} {n : Nat} {x : α} {f : α → α}

/-- A change of a party that is there splits the list around it. -/
theorem exists_split_modify (hx : l[n]? = some x) :
    ∃ before after, l = before ++ x :: after ∧ before.length = n ∧
      l.modify n f = before ++ f x :: after := by
  obtain ⟨hlt, hget⟩ := List.getElem?_eq_some_iff.mp hx
  obtain ⟨before, y, after, hl, hn, hmodify⟩ := List.exists_of_modify f hlt
  have hy : y = x := by
    subst hl hn
    simpa using hget
  subst hy
  exact ⟨before, after, hl, hn, hmodify⟩

/-- A change counts the party as it was no more and as it is from now on. -/
theorem countP_modify (q : α → Bool) (hx : l[n]? = some x) :
    (l.modify n f).countP q + (q x).toNat = l.countP q + (q (f x)).toNat := by
  obtain ⟨before, after, hl, -, hmodify⟩ := exists_split_modify (f := f) hx
  rw [hmodify, hl, List.countP_append, List.countP_append, List.countP_cons, List.countP_cons]
  cases q x <;> cases q (f x) <;> simp <;> omega

/-- So does a sum over the parties. -/
theorem sum_map_modify (g : α → Nat) (hx : l[n]? = some x) :
    ((l.modify n f).map g).sum + g x = (l.map g).sum + g (f x) := by
  obtain ⟨before, after, hl, -, hmodify⟩ := exists_split_modify (f := f) hx
  rw [hmodify, hl]
  simp only [List.map_append, List.map_cons, List.sum_append, List.sum_cons]
  omega

/-- A change that the view does not show. -/
theorem map_modify_of_view {g : α → β} (hf : ∀ x, g (f x) = g x) (l : List α) (n : Nat) :
    (l.modify n f).map g = l.map g := by
  induction l generalizing n with
  | nil => simp
  | cons x l ih =>
    cases n with
    | zero => simp [hf]
    | succ n => simp [ih]

/-- A party of the changed list is the changed one or was there. -/
theorem getElem?_modify_some {m : Nat} {y : α} (h : (l.modify n f)[m]? = some y) :
    (m = n ∧ ∃ x, l[n]? = some x ∧ y = f x) ∨ (m ≠ n ∧ l[m]? = some y) := by
  rw [List.getElem?_modify] at h
  by_cases hsame : n = m
  · subst hsame
    cases hx : l[n]? with
    | none => simp [hx] at h
    | some x =>
      rw [hx] at h
      simp only [if_true, Option.map_eq_map, Option.map_some, Option.some.injEq] at h
      exact Or.inl ⟨rfl, x, rfl, h.symm⟩
  · right
    refine ⟨Ne.symm hsame, ?_⟩
    cases hy : l[m]? with
    | none => simp [hy] at h
    | some y' => simpa [hy, hsame] using h

/-- The other parties are there after a change. -/
theorem mem_modify_of_ne {y : α} (hx : l[n]? = some x) (hy : y ∈ l) (hne : y ≠ x) :
    y ∈ l.modify n f := by
  obtain ⟨before, after, hl, -, hmodify⟩ := @exists_split_modify _ _ _ _ f hx
  rw [hl] at hy
  rw [hmodify]
  simp only [List.mem_append, List.mem_cons] at hy ⊢
  rcases hy with hy | rfl | hy
  · exact .inl hy
  · exact absurd rfl hne
  · exact .inr (.inr hy)

/-- So is the changed one. -/
theorem mem_modify_self (hx : l[n]? = some x) : f x ∈ l.modify n f := by
  obtain ⟨before, after, -, -, hmodify⟩ := @exists_split_modify _ _ _ _ f hx
  rw [hmodify]
  exact List.mem_append_right _ List.mem_cons_self

/-- Some party is of a kind still, if the changed one is of it whenever it was. -/
theorem exists_mem_modify {p : α → Prop} (hx : l[n]? = some x) (hp : p x → p (f x))
    (h : ∃ a ∈ l, p a) : ∃ a ∈ l.modify n f, p a := by
  classical
  obtain ⟨a, ha, hpa⟩ := h
  by_cases hsame : a = x
  · exact ⟨f x, mem_modify_self hx, hp (hsame ▸ hpa)⟩
  · exact ⟨a, mem_modify_of_ne hx ha hsame, hpa⟩

/-- A party after a change is the changed one or was there. -/
theorem mem_modify {y : α} (hx : l[n]? = some x) (hy : y ∈ l.modify n f) : y = f x ∨ y ∈ l := by
  obtain ⟨m, hm⟩ := List.mem_iff_getElem?.mp hy
  rcases getElem?_modify_some hm with ⟨rfl, x', hx', rfl⟩ | ⟨-, hm⟩
  · obtain rfl : x = x' := Option.some.inj (hx.symm.trans hx')
    exact .inl rfl
  · exact .inr (List.mem_of_getElem? hm)

end Modify

section Concat

variable {l : List α} {x y : α}

/-- A new party is counted if the count is of its kind. -/
theorem countP_concat (q : α → Bool) (l : List α) (x : α) :
    (l ++ [x]).countP q = l.countP q + (q x).toNat := by
  rw [List.countP_append, List.countP_singleton]
  cases q x <;> rfl

/-- A party of the longer list is the new one or was there. -/
theorem getElem?_concat_some {m : Nat} (h : (l ++ [x])[m]? = some y) :
    (m = l.length ∧ y = x) ∨ l[m]? = some y := by
  rcases Nat.lt_trichotomy m l.length with hlt | heq | hgt
  · rw [List.getElem?_append_left hlt] at h
    exact Or.inr h
  · subst heq
    rw [List.getElem?_concat_length] at h
    exact Or.inl ⟨rfl, (Option.some.inj h).symm⟩
  · rw [List.getElem?_eq_none (by simp; omega)] at h
    cases h

/-- Where a longer history is cut: at its last event or within the shorter one. -/
theorem append_cons_eq_concat {before after : List α} (h : l ++ [x] = before ++ y :: after) :
    (before = l ∧ y = x ∧ after = []) ∨ ∃ rest, after = rest ++ [x] ∧ l = before ++ y :: rest := by
  rcases List.eq_nil_or_concat after with hnil | ⟨rest, last, hrest⟩
  · subst hnil
    obtain ⟨hl, hx⟩ := List.append_inj' h rfl
    exact Or.inl ⟨hl.symm, (List.cons.inj hx).1.symm, rfl⟩
  · subst hrest
    rw [List.concat_eq_append, ← List.cons_append, ← List.append_assoc] at h
    obtain ⟨hl, hx⟩ := List.append_inj' h rfl
    exact Or.inr ⟨rest, by rw [List.concat_eq_append, (List.cons.inj hx).1], hl⟩

end Concat

/-- Where each party adds entries under its own position, those under a position are the ones of
the party that is there. -/
theorem filter_flatMap_zipIdx {g : α × Nat → List β} {key : β → Nat}
    (hkey : ∀ entry, ∀ b ∈ g entry, key b = entry.2) : ∀ {l : List α} {n k : Nat},
      ((l.zipIdx n).flatMap g).filter (fun b ↦ key b = n + k) =
        (l[k]?.map fun x ↦ g (x, n + k)).getD []
  | [], n, k => by simp
  | x :: l, n, 0 => by
    have hfirst : (g (x, n)).filter (fun b ↦ key b = n + 0) = g (x, n) := by
      rw [List.filter_eq_self]
      intro b hb
      simpa using hkey _ b hb
    have hrest : ((l.zipIdx (n + 1)).flatMap g).filter (fun b ↦ key b = n + 0) = [] := by
      rw [List.filter_eq_nil_iff]
      intro b hb
      obtain ⟨entry, hentry, hb⟩ := List.mem_flatMap.mp hb
      have hle := List.le_snd_of_mem_zipIdx hentry
      have heq := hkey entry b hb
      simp only [decide_eq_true_eq]
      omega
    rw [List.zipIdx_cons, List.flatMap_cons, List.filter_append, hfirst, hrest]
    simp
  | x :: l, n, k + 1 => by
    have hfirst : (g (x, n)).filter (fun b ↦ key b = n + (k + 1)) = [] := by
      rw [List.filter_eq_nil_iff]
      intro b hb
      have heq := hkey _ b hb
      simp only [decide_eq_true_eq]
      omega
    have hnext : n + (k + 1) = n + 1 + k := by omega
    rw [List.zipIdx_cons, List.flatMap_cons, List.filter_append, hfirst, List.nil_append, hnext,
      filter_flatMap_zipIdx hkey]
    rfl

end Base
