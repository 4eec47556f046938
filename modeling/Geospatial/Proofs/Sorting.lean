import Geospatial.Sorting
import Mathlib.Data.List.Perm.Basic
import Mathlib.Data.List.TakeWhile
import Mathlib.Tactic

/-!
# What stable sorting gives

Sorting only moves items. Where the comparison ranks the items, as the comparison of keys in a
linear order does, the result ascends. Where moreover it tells any two different items apart, the
result does not depend on the order in which the items are given.
-/

namespace Geospatial.Sorting

variable {α : Type}

/-! ## Runs -/

theorem continueRun_append (continues : α → α → Bool) (last : α) (items : List α) :
    (continueRun continues last items).1 ++ (continueRun continues last items).2 = items := by
  induction items generalizing last with
  | nil => rfl
  | cons x rest ih =>
      unfold continueRun
      split
      · simpa using ih x
      · rfl

theorem continueRun_isChain (continues : α → α → Bool) (last : α) (items : List α) :
    (last :: (continueRun continues last items).1).IsChain
      (fun a b => continues a b = true) := by
  induction items generalizing last with
  | nil => simp [continueRun]
  | cons x rest ih =>
      unfold continueRun
      split
      · exact List.isChain_cons_cons.mpr ⟨‹_›, ih x⟩
      · simp

theorem leadingRun_of_lt (lt : α → α → Bool) {x y : α} (rest : List α) (h : lt y x = true) :
    leadingRun lt (x :: y :: rest) =
      ((x :: y :: (continueRun (fun last next => lt next last) y rest).1).reverse,
        (continueRun (fun last next => lt next last) y rest).2) := by
  simp [leadingRun, h]

theorem leadingRun_of_not_lt (lt : α → α → Bool) {x y : α} (rest : List α) (h : lt y x = false) :
    leadingRun lt (x :: y :: rest) =
      (x :: y :: (continueRun (fun last next => !lt next last) y rest).1,
        (continueRun (fun last next => !lt next last) y rest).2) := by
  simp [leadingRun, h]

theorem leadingRun_perm (lt : α → α → Bool) (items : List α) :
    ((leadingRun lt items).1 ++ (leadingRun lt items).2).Perm items := by
  match items with
  | [] => rfl
  | [x] => rfl
  | x :: y :: rest =>
      cases h : lt y x with
      | true =>
          rw [leadingRun_of_lt lt rest h]
          refine ((List.reverse_perm _).append_right _).trans ?_
          simp only [List.cons_append, continueRun_append]
          rfl
      | false =>
          rw [leadingRun_of_not_lt lt rest h]
          simp only [List.cons_append, continueRun_append]
          rfl

theorem continueRun_of_isChain {continues : α → α → Bool} {last : α} {items : List α}
    (h : (last :: items).IsChain fun a b => continues a b = true) :
    continueRun continues last items = (items, []) := by
  induction items generalizing last with
  | nil => rfl
  | cons x rest ih =>
      obtain ⟨hx, hrest⟩ := List.isChain_cons_cons.mp h
      simp [continueRun, hx, ih hrest]

/-! ## Insertion by bisection -/

theorem bisect_mem_range (lt : α → α → Bool) (item : α) (sorted : Array α) {low high : Nat}
    (h : low ≤ high) :
    low ≤ bisect lt item sorted low high ∧ bisect lt item sorted low high ≤ high := by
  fun_induction bisect lt item sorted low high with
  | case1 low high hlt middle x hx hbelow ih =>
      have hm : middle = (low + high) / 2 := rfl
      have := ih (by omega)
      omega
  | case2 low high hlt middle x hx hbelow ih =>
      have hm : middle = (low + high) / 2 := rfl
      have := ih (by omega)
      omega
  | case3 => omega
  | case4 => omega

theorem toList_insert (lt : α → α → Bool) (sorted : Array α) (item : α) :
    (insert lt sorted item).toList =
      sorted.toList.take (bisect lt item sorted 0 sorted.size) ++
        item :: sorted.toList.drop (bisect lt item sorted 0 sorted.size) := by
  have hle := (bisect_mem_range lt item sorted (Nat.zero_le sorted.size)).2
  simp [insert, List.take_of_length_le]

theorem insert_perm (lt : α → α → Bool) (sorted : Array α) (item : α) :
    (insert lt sorted item).toList.Perm (item :: sorted.toList) := by
  rw [toList_insert]
  refine List.perm_middle.trans ?_
  rw [List.take_append_drop]

theorem foldl_insert_perm (lt : α → α → Bool) (rest : List α) (sorted : Array α) :
    (rest.foldl (insert lt) sorted).toList.Perm (sorted.toList ++ rest) := by
  induction rest generalizing sorted with
  | nil => simp
  | cons x rest ih =>
      refine (ih (insert lt sorted x)).trans ?_
      refine ((insert_perm lt sorted x).append_right rest).trans ?_
      exact List.perm_middle.symm

/-- Sorting only moves items. -/
theorem sort_perm (lt : α → α → Bool) (items : List α) : (sort lt items).Perm items :=
  (foldl_insert_perm lt _ _).trans (leadingRun_perm lt items)

/-! ## Ascending results -/

/-- A comparison that ranks items: no two are below one another, and of two items of which one is
below the other, any third one is above the lower or below the higher. -/
structure Ranks (lt : α → α → Bool) : Prop where
  asymm : ∀ {a b}, lt a b = true → lt b a = false
  between : ∀ {a c} (b), lt a c = true → lt a b = true ∨ lt b c = true

theorem Ranks.of_key {β : Type} [LinearOrder β] (key : α → β) :
    Ranks fun a b => decide (key a < key b) where
  asymm h := by
    have hlt := of_decide_eq_true h
    simpa using hlt.le
  between b h := by
    have hlt := of_decide_eq_true h
    rcases lt_or_ge (key _) (key b) with hb | hb
    · exact Or.inl (decide_eq_true hb)
    · exact Or.inr (decide_eq_true (hb.trans_lt hlt))

def Ascends (lt : α → α → Bool) (items : List α) : Prop :=
  items.Pairwise fun a b => lt b a = false

namespace Ranks

variable {lt : α → α → Bool} (h : Ranks lt)

include h

theorem trans {a b c : α} (hab : lt a b = true) (hbc : lt b c = true) : lt a c = true := by
  rcases h.between c hab with hac | hcb
  · exact hac
  · rw [h.asymm hbc] at hcb
    cases hcb

theorem notBelow_trans {a b c : α} (hba : lt b a = false) (hcb : lt c b = false) :
    lt c a = false := by
  by_contra hca
  rcases h.between b (Bool.eq_true_of_not_eq_false hca) with hl | hl
  · rw [hcb] at hl; cases hl
  · rw [hba] at hl; cases hl

theorem leadingRun_ascends (items : List α) : Ascends lt (leadingRun lt items).1 := by
  match items with
  | [] => simp [leadingRun, Ascends]
  | [x] => simp [leadingRun, Ascends]
  | x :: y :: rest =>
      cases hyx : lt y x with
      | true =>
          rw [leadingRun_of_lt lt rest hyx]
          have hchain := continueRun_isChain (fun last next => lt next last) y rest
          have hall : (x :: y :: (continueRun (fun last next => lt next last) y rest).1).IsChain
              (fun a b => lt b a = true) := List.isChain_cons_cons.mpr ⟨hyx, hchain⟩
          have : IsTrans α fun a b => lt b a = true := ⟨fun _ _ _ hab hbc => h.trans hbc hab⟩
          unfold Ascends
          rw [List.pairwise_reverse]
          exact hall.pairwise.imp fun hba => h.asymm hba
      | false =>
          rw [leadingRun_of_not_lt lt rest hyx]
          have hchain := continueRun_isChain (fun last next => !lt next last) y rest
          have hall : (x :: y :: (continueRun (fun last next => !lt next last) y rest).1).IsChain
              (fun a b => lt b a = false) := by
            refine List.isChain_cons_cons.mpr ⟨hyx, hchain.imp fun a b hab => ?_⟩
            simpa using hab
          have : IsTrans α fun a b => lt b a = false := ⟨fun _ _ _ => h.notBelow_trans⟩
          exact hall.pairwise

/-- Bisection parts a sorted array: what comes before the place is not above the item, what comes
from it on is above. -/
theorem bisect_parts (item : α) {sorted : Array α} {low high : Nat} (hs : Ascends lt sorted.toList)
    (hle : low ≤ high) (hsize : high ≤ sorted.size)
    (hlow : ∀ i, i < low → ∀ x, sorted[i]? = some x → lt item x = false)
    (hhigh : ∀ i, high ≤ i → ∀ x, sorted[i]? = some x → lt item x = true) :
    (∀ i, i < bisect lt item sorted low high → ∀ x, sorted[i]? = some x → lt item x = false) ∧
      ∀ i, bisect lt item sorted low high ≤ i → ∀ x, sorted[i]? = some x → lt item x = true := by
  have hget : ∀ {i j : Nat} {x y : α}, i < j → sorted[i]? = some x → sorted[j]? = some y →
      lt y x = false := by
    intro i j x y hij hx hy
    obtain ⟨hi, rfl⟩ := Array.getElem?_eq_some_iff.mp hx
    obtain ⟨hj, rfl⟩ := Array.getElem?_eq_some_iff.mp hy
    exact List.pairwise_iff_getElem.mp hs i j (by simpa using hi) (by simpa using hj) hij
  fun_induction bisect lt item sorted low high with
  | case1 low high hlt middle x hx hbelow ih =>
      have hm : middle = (low + high) / 2 := rfl
      refine ih (by omega) (by omega) hlow fun i hi y hy => ?_
      rcases Nat.eq_or_lt_of_le hi with rfl | hi
      · rw [hx] at hy
        cases hy
        exact hbelow
      · rcases h.between y hbelow with hy' | hyx
        · exact hy'
        · rw [hget hi hx hy] at hyx
          cases hyx
  | case2 low high hlt middle x hx hbelow ih =>
      have hm : middle = (low + high) / 2 := rfl
      have hnot : lt item x = false := by simpa using hbelow
      refine ih (by omega) hsize (fun i hi y hy => ?_) hhigh
      rcases Nat.eq_or_lt_of_le (Nat.le_of_lt_succ hi) with rfl | hi
      · rw [hx] at hy
        cases hy
        exact hnot
      · exact h.notBelow_trans (hget hi hy hx) hnot
  | case3 low high hlt middle hx =>
      have hm : middle = (low + high) / 2 := rfl
      rw [Array.getElem?_eq_none_iff] at hx
      omega
  | case4 low high hlt =>
      have : low = high := by omega
      subst this
      exact ⟨hlow, hhigh⟩

theorem insert_ascends {sorted : Array α} (hs : Ascends lt sorted.toList) (item : α) :
    Ascends lt (insert lt sorted item).toList := by
  obtain ⟨hbefore, hafter⟩ := h.bisect_parts item hs (Nat.zero_le sorted.size) le_rfl
    (fun i hi => absurd hi (Nat.not_lt_zero i)) (fun i hi x hx => by
      rw [Array.getElem?_eq_none hi] at hx
      cases hx)
  have hhead : ∀ x ∈ sorted.toList.take (bisect lt item sorted 0 sorted.size),
      lt item x = false := by
    intro x hx
    obtain ⟨i, hi⟩ := List.getElem?_of_mem hx
    rw [List.getElem?_take] at hi
    split at hi
    · exact hbefore i ‹_› x (by simpa using hi)
    · cases hi
  have htail : ∀ x ∈ sorted.toList.drop (bisect lt item sorted 0 sorted.size),
      lt item x = true := by
    intro x hx
    obtain ⟨i, hi⟩ := List.getElem?_of_mem hx
    rw [List.getElem?_drop] at hi
    exact hafter _ (Nat.le_add_right _ i) x (by simpa using hi)
  rw [toList_insert]
  unfold Ascends
  refine List.pairwise_append.mpr ⟨hs.sublist (List.take_sublist _ _), ?_, ?_⟩
  · refine List.pairwise_cons.mpr ⟨fun x hx => h.asymm (htail x hx), ?_⟩
    exact hs.sublist (List.drop_sublist _ _)
  · intro x hx y hy
    rcases List.mem_cons.mp hy with rfl | hy
    · exact hhead x hx
    · exact h.notBelow_trans (hhead x hx) (h.asymm (htail y hy))

theorem foldl_insert_ascends (rest : List α) {sorted : Array α} (hs : Ascends lt sorted.toList) :
    Ascends lt (rest.foldl (insert lt) sorted).toList := by
  induction rest generalizing sorted with
  | nil => exact hs
  | cons x rest ih => exact ih (h.insert_ascends hs x)

theorem sort_ascends (items : List α) : Ascends lt (sort lt items) :=
  h.foldl_insert_ascends _ (h.leadingRun_ascends items)

end Ranks

/-- A list that ascends is its own leading run, so that sorting leaves it as it is. -/
theorem sort_eq_self {lt : α → α → Bool} {items : List α} (h : Ascends lt items) :
    sort lt items = items := by
  have hrun : leadingRun lt items = (items, []) := by
    match items with
    | [] => rfl
    | [x] => rfl
    | x :: y :: rest =>
        have hyx : lt y x = false := (List.pairwise_cons.mp h).1 y List.mem_cons_self
        have hchain : (y :: rest).IsChain fun a b => (!lt b a) = true :=
          (List.pairwise_cons.mp h).2.isChain.imp fun a b hab => by rw [hab]; rfl
        rw [leadingRun_of_not_lt lt rest hyx, continueRun_of_isChain hchain]
  simp [sort, hrun]

/-! ## Items with keys

Items are sorted as their keys are. -/

section Keys

variable {β : Type} (key : β → α)

theorem continueRun_map (continues : α → α → Bool) (last : β) (items : List β) :
    continueRun continues (key last) (items.map key) =
      ((continueRun (fun a b => continues (key a) (key b)) last items).1.map key,
        (continueRun (fun a b => continues (key a) (key b)) last items).2.map key) := by
  induction items generalizing last with
  | nil => rfl
  | cons x rest ih =>
      by_cases h : continues (key last) (key x) = true
      · simp [continueRun, h, ih]
      · simp [continueRun, h]

theorem leadingRun_map (lt : α → α → Bool) (items : List β) :
    leadingRun lt (items.map key) =
      ((leadingRun (fun a b => lt (key a) (key b)) items).1.map key,
        (leadingRun (fun a b => lt (key a) (key b)) items).2.map key) := by
  match items with
  | [] => rfl
  | [x] => rfl
  | x :: y :: rest =>
      by_cases h : lt (key y) (key x) = true
      · simp [leadingRun, h, continueRun_map]
      · simp [leadingRun, h, continueRun_map]

theorem bisect_map (lt : α → α → Bool) (item : β) (sorted : Array β) (low high : Nat) :
    bisect lt (key item) (sorted.map key) low high =
      bisect (fun a b => lt (key a) (key b)) item sorted low high := by
  fun_induction bisect (fun a b => lt (key a) (key b)) item sorted low high with
  | case1 low high hlt middle x hx hbelow ih =>
      have hkey : (sorted.map key)[(low + high) / 2]? = some (key x) := by
        simpa using congrArg (Option.map key) hx
      rw [bisect, if_pos hlt]
      simp only [hkey, if_pos hbelow]
      exact ih
  | case2 low high hlt middle x hx hbelow ih =>
      have hkey : (sorted.map key)[(low + high) / 2]? = some (key x) := by
        simpa using congrArg (Option.map key) hx
      rw [bisect, if_pos hlt]
      simp only [hkey, if_neg hbelow]
      exact ih
  | case3 low high hlt middle hx =>
      have hkey : (sorted.map key)[(low + high) / 2]? = none := by
        simpa using congrArg (Option.map key) hx
      rw [bisect, if_pos hlt]
      simp only [hkey]
  | case4 low high hlt => rw [bisect, if_neg hlt]

theorem insert_map (lt : α → α → Bool) (sorted : Array β) (item : β) :
    insert lt (sorted.map key) (key item) =
      (insert (fun a b => lt (key a) (key b)) sorted item).map key := by
  refine Array.ext' ?_
  rw [Array.toList_map, toList_insert, toList_insert, bisect_map, Array.size_map]
  simp

theorem sort_map (lt : α → α → Bool) (items : List β) :
    sort lt (items.map key) = (sort (fun a b => lt (key a) (key b)) items).map key := by
  have hfold : ∀ (rest : List β) (sorted : Array β),
      (rest.map key).foldl (insert lt) (sorted.map key) =
        (rest.foldl (insert fun a b => lt (key a) (key b)) sorted).map key := by
    intro rest
    induction rest with
    | nil => simp
    | cons x rest ih =>
        intro sorted
        rw [List.map_cons, List.foldl_cons, insert_map, ih, List.foldl_cons]
  unfold sort
  rw [leadingRun_map]
  simp only [← List.map_toArray, hfold, Array.toList_map]

end Keys

/-- It is enough that the comparison ranks the items that are sorted. -/
theorem sort_ascends_of_ranks {lt : α → α → Bool} {items : List α}
    (h : Ranks fun a b : { a // a ∈ items } => lt a b) : Ascends lt (sort lt items) := by
  have hsort := sort_map Subtype.val lt items.attach
  rw [List.attach_map_subtype_val] at hsort
  rw [hsort]
  unfold Ascends
  exact List.pairwise_map.mpr (h.sort_ascends items.attach)

/-! ## Comparisons that tell items apart -/

/-- A comparison under which no item is below one that is below it, directly or through others. -/
structure Strict (lt : α → α → Bool) : Prop where
  asymm : ∀ {a b}, lt a b = true → lt b a = false
  trans : ∀ {a b c}, lt a b = true → lt b c = true → lt a c = true

theorem Ranks.strict {lt : α → α → Bool} (h : Ranks lt) : Strict lt := ⟨h.asymm, h.trans⟩

def NoTies (lt : α → α → Bool) (items : List α) : Prop :=
  ∀ a ∈ items, ∀ b ∈ items, lt a b = false → lt b a = false → a = b

theorem NoTies.perm {lt : α → α → Bool} {items items' : List α} (h : NoTies lt items)
    (hperm : items.Perm items') : NoTies lt items' :=
  fun a ha b hb => h a (hperm.mem_iff.mpr ha) b (hperm.mem_iff.mpr hb)

theorem noTies_pair {lt : α → α → Bool} {a b : α} (h : lt a b = true) : NoTies lt [a, b] := by
  intro x hx y hy hxy hyx
  simp only [List.mem_cons, List.not_mem_nil, or_false] at hx hy
  rcases hx with rfl | rfl <;> rcases hy with rfl | rfl <;> simp_all

/-- Without ties a strict comparison ranks the items. -/
theorem Strict.ranks_of_noTies {lt : α → α → Bool} (h : Strict lt) {items : List α}
    (hties : NoTies lt items) : Ranks fun a b : { a // a ∈ items } => lt a b where
  asymm := h.asymm
  between {a c} b hac := by
    by_contra hnone
    obtain ⟨hab, hbc⟩ := not_or.mp hnone
    rw [Bool.not_eq_true] at hab hbc
    cases hba : lt b a with
    | true =>
        have := h.trans hba hac
        rw [this] at hbc
        cases hbc
    | false =>
        rw [hties a a.2 b b.2 hab hba, hbc] at hac
        cases hac

theorem Strict.sort_ascends {lt : α → α → Bool} (h : Strict lt) {items : List α}
    (hties : NoTies lt items) : Ascends lt (sort lt items) :=
  sort_ascends_of_ranks (h.ranks_of_noTies hties)

theorem eq_of_ascends {lt : α → α → Bool} {items items' : List α} (hties : NoTies lt items)
    (hperm : items.Perm items') (h : Ascends lt items) (h' : Ascends lt items') :
    items = items' := by
  refine hperm.eq_of_pairwise (fun a b ha hb hab hba => ?_) h h'
  exact hties a ha b (hperm.mem_iff.mpr hb) hba hab

/-- Without ties the order of the items does not matter. -/
theorem Strict.sort_eq_of_perm {lt : α → α → Bool} (h : Strict lt) {items items' : List α}
    (hties : NoTies lt items) (hperm : items.Perm items') : sort lt items = sort lt items' := by
  have hsorted : (sort lt items).Perm (sort lt items') :=
    (sort_perm lt items).trans (hperm.trans (sort_perm lt items').symm)
  exact eq_of_ascends (hties.perm (sort_perm lt items).symm) hsorted (h.sort_ascends hties)
    (h.sort_ascends (hties.perm hperm))

theorem sort_pair (lt : α → α → Bool) (x y : α) :
    sort lt [x, y] = if lt y x then [y, x] else [x, y] := by
  by_cases h : lt y x = true
  · simp [sort, leadingRun, continueRun, h]
  · simp [sort, leadingRun, continueRun, h]

/-! ## Plain insertion -/

theorem dropWhile_reverse_append (p : α → Bool) (items : List α) :
    (items.reverse.dropWhile p).reverse ++ (items.reverse.takeWhile p).reverse = items := by
  rw [← List.reverse_append, List.takeWhile_append_dropWhile, List.reverse_reverse]

theorem insertPlain_perm (lt : α → α → Bool) (sorted : List α) (item : α) :
    (insertPlain lt sorted item).Perm (item :: sorted) := by
  cases sorted with
  | nil => rfl
  | cons first rest =>
      by_cases h : lt item first = true
      · simp [insertPlain, h]
      · simp only [insertPlain, if_neg h]
        refine List.perm_middle.trans ?_
        rw [dropWhile_reverse_append]

theorem sortPlain_perm (lt : α → α → Bool) (items : List α) : (sortPlain lt items).Perm items := by
  have hfold : ∀ (rest sorted : List α),
      (rest.foldl (insertPlain lt) sorted).Perm (sorted ++ rest) := by
    intro rest
    induction rest with
    | nil => simp
    | cons x rest ih =>
        intro sorted
        refine (ih _).trans (((insertPlain_perm lt sorted x).append_right rest).trans ?_)
        exact List.perm_middle.symm
  exact hfold items []

theorem Ranks.insertPlain_ascends {lt : α → α → Bool} (h : Ranks lt) {sorted : List α}
    (hs : Ascends lt sorted) (item : α) : Ascends lt (insertPlain lt sorted item) := by
  cases sorted with
  | nil => simp [insertPlain, Ascends]
  | cons first rest =>
      by_cases hitem : lt item first = true
      · simp only [insertPlain, if_pos hitem]
        refine List.pairwise_cons.mpr ⟨fun x hx => ?_, hs⟩
        rcases List.mem_cons.mp hx with rfl | hx
        · exact h.asymm hitem
        · exact h.notBelow_trans (h.asymm hitem) ((List.pairwise_cons.mp hs).1 x hx)
      · simp only [insertPlain, if_neg hitem]
        have hparts := dropWhile_reverse_append (lt item) (first :: rest)
        have hlater : ∀ x ∈ ((first :: rest).reverse.takeWhile (lt item)).reverse,
            lt item x = true := fun x hx => List.mem_takeWhile_imp (List.mem_reverse.mp hx)
        have hearlier : ∀ x ∈ ((first :: rest).reverse.dropWhile (lt item)).reverse,
            lt item x = false := by
          cases hdrop : (first :: rest).reverse.dropWhile (lt item) with
          | nil => simp
          | cons e more =>
              have hhead : lt item e = false := by
                have hne : (first :: rest).reverse.dropWhile (lt item) ≠ [] := by
                  rw [hdrop]
                  exact List.cons_ne_nil e more
                simpa only [hdrop, List.head_cons] using List.head_dropWhile_not (lt item) hne
              have hasc : Ascends lt (e :: more).reverse := by
                rw [← hdrop]
                exact (hparts ▸ hs).sublist (List.sublist_append_left _ _)
              unfold Ascends at hasc
              rw [List.pairwise_reverse] at hasc
              intro x hx
              rcases List.mem_cons.mp (List.mem_reverse.mp hx) with rfl | hx
              · exact hhead
              · exact h.notBelow_trans ((List.pairwise_cons.mp hasc).1 x hx) hhead
        rw [← hparts] at hs
        obtain ⟨hfront, hback, -⟩ := List.pairwise_append.mp hs
        refine List.pairwise_append.mpr ⟨hfront, List.pairwise_cons.mpr ⟨fun x hx => ?_, hback⟩, ?_⟩
        · exact h.asymm (hlater x hx)
        · intro x hx y hy
          rcases List.mem_cons.mp hy with rfl | hy
          · exact hearlier x hx
          · exact h.notBelow_trans (hearlier x hx) (h.asymm (hlater y hy))

theorem Ranks.sortPlain_ascends {lt : α → α → Bool} (h : Ranks lt) (items : List α) :
    Ascends lt (sortPlain lt items) := by
  have hfold : ∀ (rest sorted : List α), Ascends lt sorted →
      Ascends lt (rest.foldl (insertPlain lt) sorted) := by
    intro rest
    induction rest with
    | nil => exact fun _ hs => hs
    | cons x rest ih => exact fun sorted hs => ih _ (h.insertPlain_ascends hs x)
  exact hfold items [] (by simp [Ascends])

theorem insertPlain_of_above {lt : α → α → Bool} {sorted : List α} {item : α}
    (h : ∀ x ∈ sorted, lt item x = false) : insertPlain lt sorted item = sorted ++ [item] := by
  cases sorted with
  | nil => rfl
  | cons first rest =>
      have hnone : ∀ x ∈ (first :: rest).reverse, ¬lt item x = true := fun x hx => by
        rw [h x (List.mem_reverse.mp hx)]
        exact Bool.false_ne_true
      have hlater : (first :: rest).reverse.takeWhile (lt item) = [] :=
        List.takeWhile_eq_nil_iff.mpr fun hpos => hnone _ (List.get_mem _ ⟨0, hpos⟩)
      have hearlier : (first :: rest).reverse.dropWhile (lt item) = (first :: rest).reverse :=
        List.dropWhile_eq_self_iff.mpr fun hpos => hnone _ (List.get_mem _ ⟨0, hpos⟩)
      simp only [insertPlain, h first List.mem_cons_self, Bool.false_eq_true, if_false, hlater,
        hearlier, List.reverse_reverse, List.reverse_nil]

theorem sortPlain_eq_self {lt : α → α → Bool} {items : List α} (h : Ascends lt items) :
    sortPlain lt items = items := by
  have hfold : ∀ (rest sorted : List α), Ascends lt (sorted ++ rest) →
      rest.foldl (insertPlain lt) sorted = sorted ++ rest := by
    intro rest
    induction rest with
    | nil => simp
    | cons x rest ih =>
        intro sorted hs
        have habove : ∀ y ∈ sorted, lt x y = false := fun y hy =>
          (List.pairwise_append.mp hs).2.2 y hy x List.mem_cons_self
        rw [List.foldl_cons, insertPlain_of_above habove, ih _ (by simpa using hs)]
        simp
  exact hfold items [] h

end Geospatial.Sorting
