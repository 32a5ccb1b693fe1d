import ShadePay.Lib.OrderedMap
import Mathlib.Data.List.Sort
import Mathlib.Data.List.TakeWhile
import Mathlib.Tactic.Linarith

/-!
# The matcher

`matchIntents` of the committee: intents are grouped by the pair of assets they give and want, and a
group is paired off against the group of the reverse pair, both in the order of their amounts. The
set `used` is what keeps an intent from being matched twice: `nodup_matchIntents` says that no id
occurs twice in the result, `mem_matchIntents` that every id in it was asked for.
-/

namespace ShadePay.Mpc

/-- An intent whose amount has been reconstructed. -/
structure Reconstructed where
  intentId : String
  amount7dp : ℤ
  inputAsset : String
  outputAsset : String
deriving DecidableEq

/-- `MatchResult`. -/
structure MatchResult where
  intentAId : String
  intentBId : String
  matchedAmount7dp : String
  inputAsset : String
  outputAsset : String
deriving DecidableEq

/-- The two intents of a match. -/
def MatchResult.ids (m : MatchResult) : List String := [m.intentAId, m.intentBId]

/-! ## Groups -/

/-- The group key. -/
def pairKey (inputAsset outputAsset : String) : String := inputAsset ++ "|" ++ outputAsset

/-- `split("|")` on a list of characters: the piece before the first bar, and the rest. -/
def splitBar : List Char → List (List Char)
  | [] => [[]]
  | c :: cs =>
      match splitBar cs with
      | [] => [[c]]
      | p :: ps => if c = '|' then [] :: p :: ps else (c :: p) :: ps

/-- `const [inAsset, outAsset] = key.split("|")`. -/
def splitKey (key : String) : String × String :=
  match splitBar key.toList with
  | p :: q :: _ => (String.ofList p, String.ofList q)
  | [p] => (String.ofList p, "undefined")
  | [] => ("undefined", "undefined")

/-- The loop that fills `groups`. -/
def groupLoop : List Reconstructed → OrderedMap String (List Reconstructed) →
    OrderedMap String (List Reconstructed)
  | [], groups => groups
  | i :: is, groups =>
      let key := pairKey i.inputAsset i.outputAsset
      groupLoop is (groups.set key ((groups.get? key).getD [] ++ [i]))

/-! ## Pairing two groups -/

/-- `[...group].sort((a, b) => (a.amount7dp < b.amount7dp ? -1 : 1))`. -/
def sortByAmount (group : List Reconstructed) : List Reconstructed :=
  group.insertionSort fun a b => a.amount7dp ≤ b.amount7dp

/-- The match of `a` with `b`. -/
def matchOf (inAsset outAsset : String) (a b : Reconstructed) : MatchResult where
  intentAId := a.intentId
  intentBId := b.intentId
  matchedAmount7dp := toString (if a.amount7dp < b.amount7dp then a.amount7dp else b.amount7dp)
  inputAsset := inAsset
  outputAsset := outAsset

/-- The `while` loop over the two sorted groups: `ai` and `bi` are the heads of the two lists. -/
def pairLoop (inAsset outAsset : String) :
    List Reconstructed → List Reconstructed → List String → List MatchResult × List String
  | [], _, used => ([], used)
  | a :: as, bs, used =>
      if a.intentId ∈ used then pairLoop inAsset outAsset as bs used
      else
        -- `bi` moves past the used counterparties and past `a` itself
        match bs.dropWhile fun b => decide (b.intentId ∈ used ∨ a.intentId = b.intentId) with
        | [] => ([], used)
        | b :: bs' =>
            let (ms, used') :=
              pairLoop inAsset outAsset as bs' (used ++ [a.intentId, b.intentId])
            (matchOf inAsset outAsset a b :: ms, used')

/-- The loop over the groups, with the order that `sort` gives a group. -/
def groupsLoop (sort : List Reconstructed → List Reconstructed)
    (groups : OrderedMap String (List Reconstructed)) :
    List (String × List Reconstructed) → List String → List MatchResult
  | [], _ => []
  | (key, group) :: rest, used =>
      let (inAsset, outAsset) := splitKey key
      match groups.get? (pairKey outAsset inAsset) with
      | none => groupsLoop sort groups rest used
      | some reverseGroup =>
          let (ms, used') := pairLoop inAsset outAsset (sort group) (sort reverseGroup) used
          ms ++ groupsLoop sort groups rest used'

/-- `matchIntents` under an engine whose `sort` leaves the groups in the given order. The comparator
calls neither of two equal amounts the smaller one, so the language does not fix their order. -/
def matchIntentsBy (sort : List Reconstructed → List Reconstructed) (intents : List Reconstructed) :
    List MatchResult :=
  let groups := groupLoop intents .empty
  groupsLoop sort groups groups.entries []

/-- `matchIntents`, with equal amounts left in place. -/
def matchIntents (intents : List Reconstructed) : List MatchResult :=
  matchIntentsBy sortByAmount intents

/-- The ids a list of matches uses, in order. -/
def usedIds (ms : List MatchResult) : List String := ms.flatMap MatchResult.ids

@[simp] theorem usedIds_cons (m : MatchResult) (ms : List MatchResult) :
    usedIds (m :: ms) = m.ids ++ usedIds ms := rfl

@[simp] theorem usedIds_append (ms ms' : List MatchResult) :
    usedIds (ms ++ ms') = usedIds ms ++ usedIds ms' := List.flatMap_append ..

/-! ## Every id is used once -/

section
variable {inAsset outAsset : String} {a : Reconstructed} {as bs : List Reconstructed}
  {used : List String}

/-- What the loop does with an unused intent: it finds no counterparty, or the first that is neither
used nor the intent itself. -/
theorem pairLoop_step (ha : a.intentId ∉ used) :
    (pairLoop inAsset outAsset (a :: as) bs used = ([], used) ∧
      ∀ b ∈ bs, b.intentId ∈ used ∨ a.intentId = b.intentId) ∨
    ∃ skipped b rest, bs = skipped ++ b :: rest ∧
      (∀ s ∈ skipped, s.intentId ∈ used ∨ a.intentId = s.intentId) ∧
      b.intentId ∉ used ∧ a.intentId ≠ b.intentId ∧
      pairLoop inAsset outAsset (a :: as) bs used =
        (matchOf inAsset outAsset a b ::
          (pairLoop inAsset outAsset as rest (used ++ [a.intentId, b.intentId])).1,
        (pairLoop inAsset outAsset as rest (used ++ [a.intentId, b.intentId])).2) := by
  have happ := List.takeWhile_append_dropWhile
    (p := fun b => decide (b.intentId ∈ used ∨ a.intentId = b.intentId)) (l := bs)
  have htake : ∀ s ∈ bs.takeWhile fun b => decide (b.intentId ∈ used ∨ a.intentId = b.intentId),
      s.intentId ∈ used ∨ a.intentId = s.intentId := fun s hs => by
    have := List.mem_takeWhile_imp hs
    exact of_decide_eq_true this
  cases hdrop : bs.dropWhile fun b => decide (b.intentId ∈ used ∨ a.intentId = b.intentId) with
  | nil =>
      rw [hdrop, List.append_nil] at happ
      rw [happ] at htake
      exact .inl ⟨by simp only [pairLoop, ha, if_false, hdrop], htake⟩
  | cons b rest =>
      have hb : ¬ (b.intentId ∈ used ∨ a.intentId = b.intentId) := by
        have hne : (bs.dropWhile fun b => decide (b.intentId ∈ used ∨
            a.intentId = b.intentId)) ≠ [] := by
          rw [hdrop]
          exact List.cons_ne_nil b rest
        have := List.head_dropWhile_not _ hne
        simp only [hdrop, List.head_cons, decide_eq_false_iff_not] at this
        exact this
      rw [not_or] at hb
      rw [hdrop] at happ
      exact .inr ⟨_, b, rest, happ.symm, htake, hb.1, hb.2, by
        simp only [pairLoop, ha, if_false, hdrop]⟩

/-- An intent that is used is skipped. -/
theorem pairLoop_skip (ha : a.intentId ∈ used) : pairLoop inAsset outAsset (a :: as) bs used =
    pairLoop inAsset outAsset as bs used := by
  rw [pairLoop, if_pos ha]

end

/-- What a pairing adds to `used`: the ids of its matches, each of them new. -/
theorem pairLoop_spec {inAsset outAsset : String} (as bs : List Reconstructed) (used : List String) :
    (pairLoop inAsset outAsset as bs used).2 =
        used ++ usedIds (pairLoop inAsset outAsset as bs used).1 ∧
      (used.Nodup → (used ++ usedIds (pairLoop inAsset outAsset as bs used).1).Nodup) ∧
      ∀ id ∈ usedIds (pairLoop inAsset outAsset as bs used).1, ∃ i ∈ as ++ bs, i.intentId = id := by
  induction as generalizing bs used with
  | nil => simp [pairLoop, usedIds]
  | cons a as ih =>
      by_cases ha : a.intentId ∈ used
      · obtain ⟨h1, h2, h3⟩ := ih bs used
        rw [pairLoop_skip ha]
        refine ⟨h1, h2, fun id hid => ?_⟩
        obtain ⟨i, hi, he⟩ := h3 id hid
        exact ⟨i, List.mem_cons_of_mem _ hi, he⟩
      · rcases @pairLoop_step inAsset outAsset a as bs used ha with
          ⟨h, -⟩ | ⟨skipped, b, rest, rfl, -, hb, hne, h⟩
        · simp [h, usedIds]
        · obtain ⟨h1, h2, h3⟩ := ih rest (used ++ [a.intentId, b.intentId])
          simp only [h, usedIds_cons, matchOf, MatchResult.ids]
          refine ⟨by rw [h1]; simp, fun hu => ?_, fun id hid => ?_⟩
          · have hnew : (used ++ [a.intentId, b.intentId]).Nodup := by
              refine List.nodup_append.2 ⟨hu, by simpa using hne, fun x hx y hy hxy => ?_⟩
              subst hxy
              rcases List.mem_pair.1 hy with rfl | rfl
              · exact ha hx
              · exact hb hx
            simpa using h2 hnew
          · rcases List.mem_append.1 hid with hid | hid
            · rcases List.mem_pair.1 hid with rfl | rfl
              · exact ⟨a, by simp, rfl⟩
              · exact ⟨b, by simp, rfl⟩
            · obtain ⟨i, hi, he⟩ := h3 id hid
              refine ⟨i, ?_, he⟩
              rcases List.mem_append.1 hi with hi | hi
              · simp [hi]
              · simp [hi]

theorem sortByAmount_perm (group : List Reconstructed) : (sortByAmount group).Perm group :=
  List.perm_insertionSort _ group

/-- A group holds intents that were put in. -/
theorem mem_groupLoop {is : List Reconstructed} {groups : OrderedMap String (List Reconstructed)}
    {p : Reconstructed → Prop} (his : ∀ i ∈ is, p i)
    (hgroups : ∀ key group, groups.get? key = some group → ∀ i ∈ group, p i) {key : String}
    {group : List Reconstructed} (h : (groupLoop is groups).get? key = some group) :
    ∀ i ∈ group, p i := by
  induction is generalizing groups with
  | nil => exact hgroups key group h
  | cons i is ih =>
      refine ih (fun j hj => his j (List.mem_cons_of_mem _ hj)) (fun k g hg => ?_) h
      rw [OrderedMap.get?_set] at hg
      split at hg
      · rw [← Option.some.inj hg]
        intro j hj
        rcases List.mem_append.1 hj with hj | hj
        · cases hget : groups.get? (pairKey i.inputAsset i.outputAsset) with
          | none => simp [hget] at hj
          | some g' =>
              rw [hget] at hj
              exact hgroups _ _ hget j hj
        · rw [List.mem_singleton.1 hj]
          exact his i (by simp)
      · exact hgroups k g hg

/-- **Every intent once.** The loop over the groups uses intents of the groups, each once. -/
theorem groupsLoop_spec {sort : List Reconstructed → List Reconstructed}
    (hsort : ∀ group, (sort group).Perm group)
    {groups : OrderedMap String (List Reconstructed)} {p : Reconstructed → Prop}
    (hgroups : ∀ key group, groups.get? key = some group → ∀ i ∈ group, p i)
    (es : List (String × List Reconstructed)) (hes : ∀ e ∈ es, ∀ i ∈ e.2, p i) (used : List String)
    (hu : used.Nodup) :
    (used ++ usedIds (groupsLoop sort groups es used)).Nodup ∧
      ∀ id ∈ usedIds (groupsLoop sort groups es used), ∃ i, p i ∧ i.intentId = id := by
  induction es generalizing used with
  | nil => simpa [groupsLoop, usedIds] using hu
  | cons e es ih =>
      have hes' : ∀ e' ∈ es, ∀ i ∈ e'.2, p i := fun e' he' => hes e' (List.mem_cons_of_mem _ he')
      simp only [groupsLoop]
      cases hrev : groups.get? (pairKey (splitKey e.1).2 (splitKey e.1).1) with
      | none => exact ih hes' used hu
      | some reverseGroup =>
          obtain ⟨h1, h2, h3⟩ := @pairLoop_spec (splitKey e.1).1 (splitKey e.1).2 (sort e.2)
            (sort reverseGroup) used
          have hnext := h2 hu
          rw [← h1] at hnext
          obtain ⟨h4, h5⟩ := ih hes' _ hnext
          simp only [usedIds_append]
          refine ⟨by rw [← List.append_assoc, ← h1]; exact h4, fun id hid => ?_⟩
          rcases List.mem_append.1 hid with hid | hid
          · obtain ⟨i, hi, he⟩ := h3 id hid
            refine ⟨i, ?_, he⟩
            rcases List.mem_append.1 hi with hi | hi
            · exact hes e (by simp) i ((hsort _).mem_iff.1 hi)
            · exact hgroups _ _ hrev i ((hsort _).mem_iff.1 hi)
          · exact h5 id hid

/-- Whatever the order within the groups, an intent is used once, and only if it was given. -/
theorem matchIntentsBy_spec {sort : List Reconstructed → List Reconstructed}
    (hsort : ∀ group, (sort group).Perm group) (intents : List Reconstructed) :
    (usedIds (matchIntentsBy sort intents)).Nodup ∧
      ∀ id ∈ usedIds (matchIntentsBy sort intents), ∃ i ∈ intents, i.intentId = id := by
  have hgroups : ∀ key group, (groupLoop intents .empty).get? key = some group →
      ∀ i ∈ group, i ∈ intents := fun key group h =>
    mem_groupLoop (fun i hi => hi) (fun k g hg => by simp [OrderedMap.empty, OrderedMap.get?] at hg) h
  have hes : ∀ e ∈ (groupLoop intents .empty).entries, ∀ i ∈ e.2, i ∈ intents := fun e he =>
    hgroups e.1 e.2 (OrderedMap.get?_of_mem he)
  simpa [matchIntentsBy] using groupsLoop_spec hsort hgroups _ hes [] List.nodup_nil

/-- **The matcher uses an intent once**, and only intents it was given. -/
theorem matchIntents_spec (intents : List Reconstructed) :
    (usedIds (matchIntents intents)).Nodup ∧
      ∀ id ∈ usedIds (matchIntents intents), ∃ i ∈ intents, i.intentId = id :=
  matchIntentsBy_spec sortByAmount_perm intents

end ShadePay.Mpc
