import ShadePay.Lib.Text
import ShadePay.Mpc.Matching

/-!
# The batch hash

`computeBatchHash` of the committee: the matches become rows, the rows are sorted by a key that joins
their fields, and the hash is SHA-256 of the JSON text of the batch id and the rows. The hash fixes the
batch id and the rows up to their order, as far as SHA-256 has no collision (`computeBatchHash_inj`),
and it does not depend on the order of the matches (`computeBatchHash_perm`).
-/

namespace ShadePay.Mpc

/-- A match as the committee signs it. Only matches of the priced matcher have the last three fields. -/
structure BatchMatch extends MatchResult where
  priceScaled : Option String
  assetIn : Option String
  assetOut : Option String
deriving DecidableEq

/-- A row of the signed payload. -/
structure Row where
  a : String
  b : String
  amt : String
  «in» : String
  out : String
  price : String
  assetIn : String
  assetOut : String
deriving DecidableEq

/-- The row of a match. -/
def BatchMatch.row (m : BatchMatch) : Row where
  a := m.intentAId
  b := m.intentBId
  amt := m.matchedAmount7dp
  «in» := m.inputAsset
  out := m.outputAsset
  price := m.priceScaled.getD ""
  assetIn := m.assetIn.getD ""
  assetOut := m.assetOut.getD ""

/-- The fields of a row, with their names. -/
def Row.fields (r : Row) : List (String × String) :=
  [("a", r.a), ("b", r.b), ("amt", r.amt), ("in", r.in), ("out", r.out), ("price", r.price),
    ("assetIn", r.assetIn), ("assetOut", r.assetOut)]

/-- The sort key: the fields with a NUL between them. -/
def Row.key (r : Row) : List Char :=
  [Char.ofNat 0].intercalate (r.fields.map fun f => f.2.toList)

/-- The sorted rows. The comparator compares the keys by their UTF-16 code units. -/
def sortRows (rows : List Row) : List Row :=
  rows.insertionSort fun x y => Text.utf16 x.key ≤ Text.utf16 y.key

/-- `JSON.stringify` of an object whose values are strings. -/
def jsonObject (fields : List (String × String)) : List Char :=
  '\x7b' :: ([','].intercalate (fields.map fun f =>
    Text.quote f.1.toList ++ ':' :: Text.quote f.2.toList) ++ ['\x7d'])

/-- The JSON text of the batch id and the rows. -/
def canonical (batchId : String) (rows : List Row) : List Char :=
  "\x7b\"batchId\":".toList ++ (Text.quote batchId.toList ++ (",\"matches\":[".toList ++
    ([','].intercalate (rows.map fun r => jsonObject r.fields) ++ "]\x7d".toList)))

/-- The bytes that are hashed. -/
def batchMessage (batchId : String) (batch : List BatchMatch) : List UInt8 :=
  Text.utf8 (canonical batchId (sortRows (batch.map BatchMatch.row)))

/-- `computeBatchHash`. -/
def computeBatchHash (sha256 : List UInt8 → BitVec 256) (batchId : String)
    (batch : List BatchMatch) : String :=
  String.ofList (Text.hex (Bytes.ofNat 32 (sha256 (batchMessage batchId batch)).toNat))

/-! ## The text shows its parts -/

/-- A member of an object tells where it ends. -/
theorem delimited_member : Delimited fun f : String × String =>
    Text.quote f.1.toList ++ ':' :: Text.quote f.2.toList := by
  intro f g s t h
  simp only [List.append_assoc, List.cons_append] at h
  obtain ⟨hname, hrest⟩ := Text.delimited_quote _ _ _ _ h
  obtain ⟨hvalue, hst⟩ := Text.delimited_quote _ _ _ _ (List.cons.inj hrest).2
  exact ⟨Prod.ext (String.toList_inj.1 hname) (String.toList_inj.1 hvalue), hst⟩

/-- An object tells where it ends. -/
theorem delimited_jsonObject : Delimited jsonObject := by
  intro f g s t h
  have hcomma : (',' : Char) ≠ '\x7d' := by decide
  have hmark : Text.mark ≠ '\x7d' := by decide
  exact delimited_member.intercalate hcomma (fun m => ⟨_, _, rfl, hmark⟩) f g s t (List.cons.inj h).2

/-- The fields of a row determine it. -/
theorem Row.fields_injective : Function.Injective Row.fields := by
  intro r r' h
  simp only [Row.fields, List.cons.injEq, Prod.mk.injEq, true_and, and_true] at h
  cases r
  cases r'
  simpa using h

/-- An array of rows tells where it ends. -/
theorem delimited_rows : Delimited fun rows : List Row =>
    [','].intercalate (rows.map fun r => jsonObject r.fields) ++ [']'] := by
  have hrow : Delimited fun r : Row => jsonObject r.fields := fun r r' s t h =>
    (delimited_jsonObject _ _ s t h).imp_left fun h => Row.fields_injective h
  exact hrow.intercalate (by decide) fun r => ⟨'\x7b', _, rfl, by decide⟩

/-- **The text fixes the batch id and the rows.** -/
theorem canonical_inj {batchId batchId' : String} {rows rows' : List Row}
    (h : canonical batchId rows = canonical batchId' rows') : batchId = batchId' ∧ rows = rows' := by
  obtain ⟨hid, hrest⟩ := Text.delimited_quote _ _ _ _ (List.append_cancel_left h)
  have hclose : ∀ l : List Char, l ++ "]\x7d".toList = l ++ [']'] ++ ['\x7d'] := by simp
  have hrows := List.append_cancel_left hrest
  rw [hclose, hclose] at hrows
  exact ⟨String.toList_inj.1 hid, (delimited_rows _ _ _ _ hrows).1⟩

section
variable {sha256 : List UInt8 → BitVec 256} {batchId batchId' : String} {batch batch' : List BatchMatch}

/-- The text of the hash fixes the message, as far as the hash function does. -/
theorem batchMessage_eq {U : Set (List UInt8)} (hU : Set.InjOn sha256 U)
    (hb : batchMessage batchId batch ∈ U) (hb' : batchMessage batchId' batch' ∈ U)
    (h : computeBatchHash sha256 batchId batch = computeBatchHash sha256 batchId' batch') :
    batchMessage batchId batch = batchMessage batchId' batch' := by
  have hbytes := Text.hex_injective (String.ofList_inj.1 h)
  have hnat := congrArg Bytes.toNat hbytes
  rw [Bytes.toNat_ofNat_of_lt (by simpa using (sha256 _).isLt),
    Bytes.toNat_ofNat_of_lt (by simpa using (sha256 _).isLt)] at hnat
  exact hU hb hb' (BitVec.eq_of_toNat_eq hnat)

theorem perm_sortRows (rows : List Row) : (sortRows rows).Perm rows := List.perm_insertionSort _ _

/-- **The hash fixes the batch.** Where SHA-256 has no collision, two batches with one hash have one id,
and their matches have the same rows. -/
theorem computeBatchHash_inj {U : Set (List UInt8)} (hU : Set.InjOn sha256 U)
    (hb : batchMessage batchId batch ∈ U) (hb' : batchMessage batchId' batch' ∈ U)
    (h : computeBatchHash sha256 batchId batch = computeBatchHash sha256 batchId' batch') :
    batchId = batchId' ∧ (batch.map BatchMatch.row).Perm (batch'.map BatchMatch.row) := by
  obtain ⟨hid, hrows⟩ := canonical_inj (Text.utf8_injective (batchMessage_eq hU hb hb' h))
  exact ⟨hid, (perm_sortRows _).symm.trans (hrows ▸ perm_sortRows _)⟩

/-! ## The order of the matches -/

/-- The fields of a row hold no NUL. -/
def Row.Plain (r : Row) : Prop := ∀ f ∈ r.fields, Char.ofNat 0 ∉ f.2.toList

/-- Plain rows with one key are equal. -/
theorem Row.key_inj {r r' : Row} (hr : r.Plain) (hr' : r'.Plain) (h : r.key = r'.key) : r = r' := by
  have hsplit := congrArg (List.splitOn (Char.ofNat 0)) h
  have hplain : ∀ {r : Row}, r.Plain →
      ∀ l ∈ r.fields.map (fun f => f.2.toList), Char.ofNat 0 ∉ l := fun h l hl => by
    obtain ⟨f, hf, rfl⟩ := List.mem_map.1 hl
    exact h f hf
  rw [Row.key, Row.key, List.splitOn_intercalate _ (hplain hr) (by simp [Row.fields]),
    List.splitOn_intercalate _ (hplain hr') (by simp [Row.fields])] at hsplit
  simp only [Row.fields, List.map_cons, List.map_nil, List.cons.injEq, String.toList_inj, and_true]
    at hsplit
  cases r
  cases r'
  simpa using hsplit

/-- Sorted rows are in the order of their keys. -/
theorem pairwise_sortRows (rows : List Row) :
    (sortRows rows).Pairwise fun x y => Text.utf16 x.key ≤ Text.utf16 y.key :=
  haveI : Std.Total fun x y : Row => Text.utf16 x.key ≤ Text.utf16 y.key := ⟨fun _ _ => le_total _ _⟩
  haveI : IsTrans Row fun x y => Text.utf16 x.key ≤ Text.utf16 y.key := ⟨fun _ _ _ => le_trans⟩
  List.pairwise_insertionSort _ _

/-- The order of the matches does not show in the message: they are sorted by the whole row. -/
theorem batchMessage_perm (hplain : ∀ m ∈ batch, m.row.Plain) (h : batch.Perm batch') :
    batchMessage batchId batch = batchMessage batchId batch' := by
  have hrows : (batch.map BatchMatch.row).Perm (batch'.map BatchMatch.row) := h.map _
  have hsorted : sortRows (batch.map BatchMatch.row) = sortRows (batch'.map BatchMatch.row) := by
    refine ((perm_sortRows _).trans (hrows.trans (perm_sortRows _).symm)).eq_of_pairwise ?_
      (pairwise_sortRows _) (pairwise_sortRows _)
    intro r r' hr hr' hle hle'
    have hp : ∀ r ∈ batch.map BatchMatch.row, r.Plain := by simpa using hplain
    refine Row.key_inj (hp r ((perm_sortRows _).mem_iff.1 hr))
      (hp r' (hrows.mem_iff.2 ((perm_sortRows _).mem_iff.1 hr'))) ?_
    exact Text.utf16_injective (le_antisymm hle hle')
  rw [batchMessage, batchMessage, hsorted]

/-- **The order of the matches does not matter.** No field holds the separator of the sort key. -/
theorem computeBatchHash_perm (hplain : ∀ m ∈ batch, m.row.Plain) (h : batch.Perm batch') :
    computeBatchHash sha256 batchId batch = computeBatchHash sha256 batchId batch' := by
  rw [computeBatchHash, computeBatchHash, batchMessage_perm hplain h]

end

end ShadePay.Mpc
