import Ncdc.Hub.Session
import Ncdc.Config.Settings

/-!
Nick completion, `hub_user_suggest`, over any order `g_hash_table_iter_next` may visit the
users in: the answer is sorted and holds at most 20 matching names, and below 20 matches it is
the same for every order.
-/

namespace Ncdc

/-- Modelled from the spec: `cmpstringp` as the `≤` test of a sort, the byte-wise `strcmp` of
the two strings. -/
def strLe (a b : List Char) : Bool := decide (strcmp a b ≠ .gt)

/-- The test of `hub_user_suggest`: the name starts with `str`, ASCII letters compared without
case, and is longer than it. -/
def suggestsUser (str name : List Char) : Bool :=
  decide (gAsciiStrncasecmp name str str.length = .eq) && name.length != str.length

/-- The loop of `hub_user_suggest` over the user pointers in `order`, while fewer than 20 names
are collected; `none` at a record that was freed. -/
def userSuggestLoop (h : Hub) (str : List Char) :
    List Nat → List (List Char) → Option (List (List Char))
  | [], acc => some acc
  | p :: ps, acc =>
    if acc.length < 20 then do
      let u ← h.heap p
      userSuggestLoop h str ps (if suggestsUser str u.name then acc ++ [u.name] else acc)
    else some acc

/-- `hub_user_suggest(hub, str, sug)`, with `g_hash_table_iter_next` handing out the user
pointers in `order`: the names collected, sorted by `qsort` with `cmpstringp`. -/
def hubUserSuggest (h : Hub) (order : List Nat) (str : List Char) :
    Option (List (List Char)) :=
  (userSuggestLoop h str order []).map (List.mergeSort · strLe)

/-! ### The order of `cmpstringp` -/

theorem strLe_trans (a b c : List Char) (hab : strLe a b) (hbc : strLe b c) : strLe a c := by
  simp only [strLe, decide_eq_true_eq, ne_eq, strcmp_eq_gt_iff] at *
  intro hca
  rcases hb : strcmp b a with _ | _ | _
  · exact hab hb
  · rw [strcmp_eq_iff.1 hb] at hbc; exact hbc hca
  · rw [strcmp_eq_gt_iff] at hb; exact hbc (strcmp_lt_trans hca hb)

theorem strLe_total (a b : List Char) : strLe a b || strLe b a := by
  simp only [strLe, Bool.or_eq_true, decide_eq_true_eq]
  rw [strcmp_swap a b]
  cases strcmp a b <;> simp [Ordering.swap]

theorem sorted_mergeSort_strLe (l : List (List Char)) :
    (l.mergeSort strLe).Pairwise fun a b => strLe a b :=
  List.sorted_mergeSort strLe_trans strLe_total l

theorem eq_of_strLe {a b : List Char} (hab : strLe a b) (hba : strLe b a) : a = b := by
  simp only [strLe, decide_eq_true_eq, ne_eq, strcmp_eq_gt_iff] at hab hba
  rcases h : strcmp a b with _ | _ | _
  · exact absurd h hba
  · exact strcmp_eq_iff.1 h
  · exact absurd (strcmp_eq_gt_iff.1 h) hab

/-! ### The loop -/

/-- The names of the users in `order` that `hub_user_suggest` would take, in that order. -/
def userMatches (h : Hub) (str : List Char) (order : List Nat) : List (List Char) :=
  ((order.filterMap h.heap).map HubUser.name).filter (suggestsUser str)

theorem userSuggestLoop_live {h : Hub} {str : List Char} :
    ∀ {order : List Nat} (acc : List (List Char)), (∀ p ∈ order, (h.heap p).isSome) →
      userSuggestLoop h str order acc =
        some (acc ++ (userMatches h str order).take (20 - acc.length))
  | [], acc, _ => by simp [userSuggestLoop, userMatches]
  | p :: ps, acc, hlive => by
    obtain ⟨u, hu⟩ := Option.isSome_iff_exists.1 (hlive p (List.mem_cons_self p ps))
    have ih := fun acc' => @userSuggestLoop_live h str ps acc'
      (fun q hq => hlive q (List.mem_cons_of_mem p hq))
    by_cases hlen : acc.length < 20
    · have hk : 20 - acc.length = (20 - (acc.length + 1)) + 1 := by omega
      by_cases hm : suggestsUser str u.name
      · simp [userSuggestLoop, hlen, hu, hm, ih, userMatches, List.filterMap_cons, hk]
      · simp [userSuggestLoop, hlen, hu, hm, ih, userMatches, List.filterMap_cons]
    · simp [userSuggestLoop, hlen, show 20 - acc.length = 0 by omega]

theorem hubUserSuggest_live {h : Hub} {str : List Char} {order : List Nat}
    (hlive : ∀ p ∈ order, (h.heap p).isSome) :
    hubUserSuggest h order str = some (((userMatches h str order).take 20).mergeSort strLe) := by
  simp [hubUserSuggest, userSuggestLoop_live [] hlive]

theorem userMatches_perm {h : Hub} {str : List Char} {order order' : List Nat}
    (hp : List.Perm order order') :
    List.Perm (userMatches h str order) (userMatches h str order') :=
  ((hp.filterMap h.heap).map HubUser.name).filter (suggestsUser str)

/-- For every order the users of a live table may be visited in, `hub_user_suggest` returns at most
20 matching names, sorted by `strcmp`. When at most 20 users match, it holds them all, the same for
every order. -/
theorem hub_user_suggest_sorted {h : Hub} {str : List Char} {order : List Nat}
    (hperm : List.Perm order (h.users.map Prod.snd)) (hlive : ∀ p ∈ order, (h.heap p).isSome) :
    ∃ sugs, hubUserSuggest h order str = some sugs ∧
      sugs.Pairwise (fun a b => strcmp a b ≠ .gt) ∧ sugs.length ≤ 20 ∧
      (∀ s ∈ sugs, ∃ p ∈ h.users.map Prod.snd, ∃ u, h.heap p = some u ∧ u.name = s ∧
        suggestsUser str s) ∧
      ((userMatches h str (h.users.map Prod.snd)).length ≤ 20 →
        List.Perm sugs (userMatches h str (h.users.map Prod.snd)) ∧
        ∀ order', List.Perm order' (h.users.map Prod.snd) →
          hubUserSuggest h order' str = some sugs) := by
  have hlive' : ∀ order', List.Perm order' (h.users.map Prod.snd) →
      ∀ p ∈ order', (h.heap p).isSome :=
    fun order' hp' p hp => hlive p (hperm.mem_iff.2 (hp'.mem_iff.1 hp))
  refine ⟨_, hubUserSuggest_live hlive,
    (sorted_mergeSort_strLe _).imp (by simp [strLe]), ?_, ?_, fun hfew => ?_⟩
  · rw [(List.mergeSort_perm _ _).length_eq]; exact List.length_take_le _ _
  · intro s hs
    have hs := List.mem_of_mem_take ((List.mergeSort_perm _ _).mem_iff.1 hs)
    obtain ⟨hs, hm⟩ := List.mem_filter.1 ((userMatches_perm hperm).mem_iff.1 hs)
    obtain ⟨u, hu, rfl⟩ := List.mem_map.1 hs
    obtain ⟨p, hp, hpu⟩ := List.mem_filterMap.1 hu
    exact ⟨p, hp, u, hpu, rfl, hm⟩
  · have hall : ∀ order', List.Perm order' (h.users.map Prod.snd) →
        List.Perm (((userMatches h str order').take 20).mergeSort strLe)
          (userMatches h str (h.users.map Prod.snd)) := fun order' hp' => by
      have hp : List.Perm (userMatches h str order') _ := userMatches_perm hp'
      rw [List.take_of_length_le (hp.length_eq ▸ hfew)]
      exact (List.mergeSort_perm _ _).trans hp
    refine ⟨hall order hperm, fun order' hp' => ?_⟩
    rw [hubUserSuggest_live (hlive' order' hp')]
    congr 1
    exact ((hall order' hp').trans (hall order hperm).symm).eq_of_sorted
      (fun a b _ _ => eq_of_strLe) (sorted_mergeSort_strLe _) (sorted_mergeSort_strLe _)

/-- A hub with the users `bob` and `Bea`. -/
def twoUserHub : Hub :=
  { hubCreate with
    users := [("bob".toList, 0), ("Bea".toList, 1)]
    heap := fun p => if p = 0 then some { HubUser.empty with name := "bob".toList }
      else if p = 1 then some { HubUser.empty with name := "Bea".toList } else none
    next := 2 }

/-- Completing `b` on that hub, visiting `Bea` first. -/
theorem two_users_complete :
    List.Perm [1, 0] (twoUserHub.users.map Prod.snd) ∧
      (∀ p ∈ [1, 0], (twoUserHub.heap p).isSome) ∧
      ∃ sugs, hubUserSuggest twoUserHub [1, 0] "b".toList = some sugs ∧
        sugs.Pairwise (fun a b => strcmp a b ≠ .gt) ∧ sugs.length ≤ 20 ∧
        (∀ s ∈ sugs, ∃ p ∈ twoUserHub.users.map Prod.snd, ∃ u,
          twoUserHub.heap p = some u ∧ u.name = s ∧ suggestsUser "b".toList s) ∧
        ((userMatches twoUserHub "b".toList (twoUserHub.users.map Prod.snd)).length ≤ 20 →
          List.Perm sugs (userMatches twoUserHub "b".toList (twoUserHub.users.map Prod.snd)) ∧
          ∀ order', List.Perm order' (twoUserHub.users.map Prod.snd) →
            hubUserSuggest twoUserHub order' "b".toList = some sugs) :=
  have hp : List.Perm [1, 0] (twoUserHub.users.map Prod.snd) := .swap 0 1 []
  have hl : ∀ p ∈ [1, 0], (twoUserHub.heap p).isSome := by decide
  ⟨hp, hl, hub_user_suggest_sorted hp hl⟩

end Ncdc
