import ShadePay.Mpc.Effects
import ShadePay.Mpc.Quota

/-!
# What a round finds in its session

A round reads the amounts of all intents of its session, or of none: `reconstruct_eq_ok` says when, and
`reconstruct_threw` when it is an exception that keeps it from them. From the amounts alone
`paired_iff` says which intents it then matches. `decryptLocal_iff` is about the in-process round, which
has to decrypt every share of the session before.
-/

namespace ShadePay.Mpc

section
variable (E : Env) (x : Session)

/-- Two of the configured nodes gave a share of the intent, and both shares parse. -/
def Session.Readable (intentId : String) : Prop :=
  2 ≤ (x.availableShares E intentId).length ∧
    reconstructAmount (x.availableShares E intentId) ≠ none

instance (intentId : String) : Decidable (x.Readable E intentId) := inferInstanceAs (Decidable (_ ∧ _))

/-- What the matcher gets to see of an intent that can be read. -/
def Session.reading (e : String × MpcIntent) : Reconstructed where
  intentId := e.1
  amount7dp := (reconstructAmount (x.availableShares E e.1)).getD 0
  inputAsset := e.2.inputAsset
  outputAsset := e.2.outputAsset

/-- The readings of a session. -/
def Session.readings : List Reconstructed := x.intents.entries.map (x.reading E)

/-- By amount the intent is among the first of its group, as many as the numbers pair off. -/
def Session.Paired (intentId : String) : Prop :=
  ∃ i ∈ x.readings E, i.intentId = intentId ∧
    i ∈ (sortByAmount (groupOf (x.readings E) i.key)).take (quota (x.readings E) i.key)

instance (intentId : String) : Decidable (x.Paired E intentId) :=
  inferInstanceAs (Decidable (∃ i ∈ x.readings E, _))

/-- The round keeps the intent: every intent of the session can be read, and this one is paired off. -/
def Session.Keeps (intentId : String) : Prop :=
  (∀ e ∈ x.intents.entries, x.Readable E e.1) ∧ x.Paired E intentId

instance (intentId : String) : Decidable (x.Keeps E intentId) := inferInstanceAs (Decidable (_ ∧ _))

/-- The first intent that cannot be read. -/
def Session.unreadable : Option (String × MpcIntent) :=
  x.intents.entries.find? fun e => ¬ x.Readable E e.1

/-- The first intent that cannot be read has two shares, so that they do not parse. -/
def Session.Throws : Prop := ∃ e ∈ x.unreadable E, 2 ≤ (x.availableShares E e.1).length

instance : Decidable (x.Throws E) :=
  inferInstanceAs (Decidable (∃ e ∈ x.unreadable E, 2 ≤ (x.availableShares E e.1).length))

/-- Every node decrypts every share that the session holds for it. -/
def Session.Decrypts (ns : List String) : Prop :=
  ∀ n ∈ ns, ∀ nodeShares ∈ x.shares.get? n, ∀ e ∈ nodeShares.entries,
    E.decryptShare n e.2.encryptedShare ≠ none

instance (ns : List String) : Decidable (x.Decrypts E ns) :=
  inferInstanceAs (Decidable (∀ n ∈ ns, ∀ nodeShares ∈ x.shares.get? n, _))

end

section
variable {E : Env} {x : Session}

/-! ## Amounts -/

/-- Intents that can be read are reconstructed. -/
theorem Session.reconstruct_of_readable {es : List (String × MpcIntent)}
    (h : ∀ e ∈ es, x.Readable E e.1) : x.reconstruct E es = .ok (es.map (x.reading E)) := by
  induction es with
  | nil => rfl
  | cons e es ih =>
      obtain ⟨id, intent⟩ := e
      rw [List.forall_mem_cons] at h
      obtain ⟨⟨hlen, hamount⟩, hes⟩ := h
      obtain ⟨amount, hamount⟩ := Option.ne_none_iff_exists'.1 hamount
      unfold Session.reconstruct
      rw [if_neg (Nat.not_lt.2 hlen), hamount, ih hes, List.map_cons, Session.reading, hamount]
      rfl

/-- One intent that cannot be read is enough for the round to read none. -/
theorem Session.reconstruct_of_not_readable {es : List (String × MpcIntent)}
    (h : ∃ e ∈ es, ¬ x.Readable E e.1) : ∃ stop, x.reconstruct E es = .error stop := by
  induction es with
  | nil => simp at h
  | cons e es ih =>
      obtain ⟨id, intent⟩ := e
      unfold Session.reconstruct
      split
      · exact ⟨_, rfl⟩
      · next hlen =>
        split
        · exact ⟨_, rfl⟩
        · next amount hamount =>
          have hread : x.Readable E id := ⟨Nat.not_lt.1 hlen, by simp [hamount]⟩
          obtain ⟨e, he, hnot⟩ := h
          have hne : e ∈ es := (List.mem_cons.1 he).resolve_left fun heq => hnot (heq ▸ hread)
          obtain ⟨stop, hstop⟩ := ih ⟨e, hne, hnot⟩
          exact ⟨stop, by rw [hstop]; rfl⟩

/-- **A round has its amounts** when every intent can be read. -/
theorem Session.reconstruct_eq_ok {es : List (String × MpcIntent)} {rs : List Reconstructed} :
    x.reconstruct E es = .ok rs ↔ (∀ e ∈ es, x.Readable E e.1) ∧ rs = es.map (x.reading E) := by
  constructor
  · intro h
    have hread : ∀ e ∈ es, x.Readable E e.1 := by
      by_contra hnot
      push Not at hnot
      obtain ⟨stop, hstop⟩ := Session.reconstruct_of_not_readable hnot
      rw [h] at hstop
      cases hstop
    rw [Session.reconstruct_of_readable hread] at h
    exact ⟨hread, (Except.ok.inj h).symm⟩
  · rintro ⟨hread, rfl⟩
    exact Session.reconstruct_of_readable hread

/-- **A round throws** on shares that do not parse, when it gets as far as these. -/
theorem Session.reconstruct_threw {es : List (String × MpcIntent)} :
    x.reconstruct E es = .error .threw ↔
      ∃ e ∈ es.find? fun e => ¬ x.Readable E e.1, 2 ≤ (x.availableShares E e.1).length := by
  induction es with
  | nil => simp [Session.reconstruct]
  | cons e es ih =>
      obtain ⟨id, intent⟩ := e
      unfold Session.reconstruct
      split
      · next hlen =>
        have hnot : ¬ x.Readable E id := fun h => absurd h.1 (Nat.not_le.2 hlen)
        simp [hnot, Nat.not_le.2 hlen]
      · next hlen =>
        split
        · next hnone =>
          have hnot : ¬ x.Readable E id := fun h => h.2 hnone
          simp [hnot, Nat.not_lt.1 hlen]
        · next amount hamount =>
          have hread : x.Readable E id := ⟨Nat.not_lt.1 hlen, by simp [hamount]⟩
          rw [List.find?_cons_of_neg (by simpa using hread), ← ih]
          cases x.reconstruct E es with
          | error stop => exact ⟨fun h => h, fun h => h⟩
          | ok rs => constructor <;> rintro ⟨⟩

/-! ## Matches -/

/-- Each intent is read once. -/
theorem Session.nodup_readings : ((x.readings E).map Reconstructed.intentId).Nodup := by
  rw [Session.readings, List.map_map]
  exact x.intents.nodup

/-- **Who is matched**, once all can be read. -/
theorem Session.paired_iff {intentId : String} :
    x.Paired E intentId ↔ intentId ∈ usedIds (matchIntents (x.readings E)) := by
  have hmatched : ∀ i ∈ x.readings E, i.intentId ∈ usedIds (matchIntents (x.readings E)) ↔
      i ∈ (sortByAmount (groupOf (x.readings E) i.key)).take (quota (x.readings E) i.key) :=
    fun i hi => mem_usedIds_iff (List.perm_insertionSort _) Session.nodup_readings hi
  constructor
  · rintro ⟨i, hi, rfl, hpaired⟩
    exact (hmatched i hi).2 hpaired
  · intro h
    obtain ⟨i, hi, rfl⟩ := (matchIntents_spec (x.readings E)).2 intentId h
    exact ⟨i, hi, rfl, (hmatched i hi).1 h⟩

/-- A round that has its amounts matches the intents it keeps. -/
theorem Session.keeps_iff {rs : List Reconstructed} {intentId : String}
    (h : x.reconstruct E x.intents.entries = .ok rs) :
    x.Keeps E intentId ↔ intentId ∈ usedIds (matchIntents rs) := by
  obtain ⟨hread, rfl⟩ := Session.reconstruct_eq_ok.1 h
  exact (and_iff_right hread).trans Session.paired_iff

/-! ## The in-process round -/

/-- What the nodes decrypt, a map of entries keeps. -/
theorem get?_setDecrypted (intentId : String) (share : Option EncodedShare)
    (m : OrderedMap String NodeShareEntry) (id : String) :
    ((setDecrypted intentId share m).get? id).map NodeShareEntry.encryptedShare =
      (m.get? id).map NodeShareEntry.encryptedShare := by
  unfold setDecrypted
  split
  · next entry hentry =>
    rw [OrderedMap.get?_set]
    split
    · next heq =>
      rw [heq, hentry]
      rfl
    · rfl
  · rfl

/-- Decrypting keeps the encrypted shares. -/
theorem get?_decryptEntries (node : String) (es : List (String × NodeShareEntry))
    (m : OrderedMap String NodeShareEntry) (id : String) :
    ((decryptEntries E node es m).2.get? id).map NodeShareEntry.encryptedShare =
      (m.get? id).map NodeShareEntry.encryptedShare := by
  induction es generalizing m with
  | nil => rfl
  | cons e es ih =>
      unfold decryptEntries
      split
      · rfl
      · exact (ih _).trans (get?_setDecrypted _ _ _ _)

/-- A node decrypts its entries if none of them throws. -/
theorem decryptEntries_iff {node : String} {es : List (String × NodeShareEntry)}
    {m : OrderedMap String NodeShareEntry} : (decryptEntries E node es m).1 = true ↔
      ∀ e ∈ es, E.decryptShare node e.2.encryptedShare ≠ none := by
  induction es generalizing m with
  | nil => simp [decryptEntries]
  | cons e es ih =>
      unfold decryptEntries
      split
      · next hnone => simp [hnone]
      · next share hshare => simp [ih, hshare]

/-- The entries of a map, under a condition on what the nodes decrypt. -/
theorem forall_encryptedShare {m : OrderedMap String NodeShareEntry} {P : EncryptedShare → Prop} :
    (∀ e ∈ m.entries, P e.2.encryptedShare) ↔
      ∀ id, ∀ share ∈ (m.get? id).map NodeShareEntry.encryptedShare, P share := by
  constructor
  · intro h id share hshare
    obtain ⟨entry, hentry, rfl⟩ := Option.map_eq_some_iff.1 hshare
    exact h (id, entry) (OrderedMap.mem_of_get? hentry)
  · intro h e he
    exact h e.1 _ (by rw [OrderedMap.get?_of_mem he]; rfl)

/-- **The in-process round** gets past the shares when every node decrypts all of its own. -/
theorem Session.decryptLocal_iff {ns : List String} :
    (x.decryptLocal E ns).1 = true ↔ x.Decrypts E ns := by
  induction ns generalizing x with
  | nil => simp [Session.decryptLocal, Session.Decrypts]
  | cons n ns ih =>
      rw [Session.Decrypts, List.forall_mem_cons, ← Session.Decrypts]
      unfold Session.decryptLocal
      split
      · next hnone => simp [hnone, ih]
      · next nodeShares hget =>
        simp only [hget, Option.mem_some_iff, forall_eq']
        rw [← decryptEntries_iff]
        split
        · next hok =>
          rw [and_iff_right hok, ih, Session.Decrypts, Session.Decrypts]
          refine forall₂_congr fun n' _ => ?_
          simp only [OrderedMap.get?_set]
          split
          · next heq =>
            subst heq
            simp only [hget, Option.mem_some_iff, forall_eq']
            rw [@forall_encryptedShare _ (E.decryptShare n' · ≠ none),
              @forall_encryptedShare _ (E.decryptShare n' · ≠ none)]
            simp only [get?_decryptEntries]
          · rfl
        · next hnot => simp [hnot]

end

end ShadePay.Mpc
