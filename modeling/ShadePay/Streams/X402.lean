import ShadePay.Lib.JsonText
import ShadePay.Lib.Decoding
import ShadePay.Streams.Agents

/-!
# The gate of a paid resource

`apps/api/src/x402.ts`: a request carries a voucher in a header, `parseVoucherHeader` reads it and
`checkX402` admits the request or refuses it. Whatever stands in the header, an admitted voucher is
for an open channel, signed by its payer and of a sufficient amount within the cap (`Admits`). The
parser catches what its own conversions throw, but `Number` lets every number pass where the signature
check wants a whole one: `gate_iff` says when the gate does what it is for.
-/

namespace ShadePay.Streams

open Guard

/-! ## The gate -/

/-- `ChannelInfo`. -/
structure ChannelInfo where
  cap : ℤ
  payerAx : ℤ
  payerAy : ℤ
  consumed : Bool
  expiryBlock : ℤ

/-- `X402Config`, with callbacks that return; the instructions are values of any kind. -/
structure X402Config (α : Type) where
  requiredCumulative : ℤ
  lookupChannel : ℤ → Option ChannelInfo
  currentBlock : Option ℤ
  paymentInstructions : List (String × α)

/-- A value in the body of a refusal. -/
inductive BodyValue (α : Type) where
  | text (s : String)
  | instruction (a : α)

/-- `X402Result`. The fields of a body are written in order, a later one over an earlier one of the
same name. -/
inductive X402Result (α : Type) where
  | ok (voucher : Voucher)
  | refused (status : ℕ) (body : List (String × BodyValue α))

/-- What the gate uses of Node. -/
structure Node where
  /-- The value of `JSON.parse(Buffer.from(s, "base64").toString("utf8"))`, if it does not throw. -/
  decode : String → Option Json
  /-- The text of a number. -/
  numberText : Number → List Char

/-- Node with its own decoders. -/
def nodeJs (numberText : Number → List Char) : Node where
  decode s := Json.parse (Text.decodeUtf8 (Base64.fromBase64 s.toList))
  numberText := numberText

/-- Decoding goes through base64, UTF-8 and JSON. -/
theorem decode_nodeJs (numberText : Number → List Char) (s : String) : (nodeJs numberText).decode s =
    Json.parse (Text.decodeUtf8 (Base64.fromBase64 s.toList)) := rfl

/-- The names of the fields of `VoucherWire`. -/
def wireNames : List (List Char) :=
  ["channelId".toList, "cumulative".toList, "seq".toList, "R8x".toList, "R8y".toList, "S".toList,
    "Ax".toList, "Ay".toList]

section
variable {α : Type} (N : Node) (C : Circomlib)

/-- `parseVoucherHeader`. A missing field and whatever is thrown give `undefined`. -/
def parseVoucherHeader (headerValue : Option String) : Option Voucher := do
  let header ← headerValue
  if header = "" then none
  else
    let w ← N.decode header
    let channelId ← w.get "channelId"
    let cumulative ← w.get "cumulative"
    let seq ← w.get "seq"
    let R8x ← w.get "R8x"
    let R8y ← w.get "R8y"
    let S ← w.get "S"
    let Ax ← w.get "Ax"
    let Ay ← w.get "Ay"
    return {
      channelId := ← channelId.toBigInt N.numberText
      cumulative := ← cumulative.toBigInt N.numberText
      seq := ← seq.toNumber N.numberText
      R8x := ← R8x.toBigInt N.numberText
      R8y := ← R8y.toBigInt N.numberText
      S := ← S.toBigInt N.numberText
      Ax := ← Ax.toBigInt N.numberText
      Ay := ← Ay.toBigInt N.numberText }

/-- `...instructions`. -/
def X402Config.instructions (config : X402Config α) : List (String × BodyValue α) :=
  config.paymentInstructions.map fun p => (p.1, .instruction p.2)

/-- `checkX402`. -/
def checkX402 (voucher : Option Voucher) (config : X402Config α) : Except AgentError (X402Result α) :=
  match voucher with
  | none => .ok (.refused 402 (("error", .text "payment required") :: (config.instructions ++
      [("requiredCumulative", .text (toString config.requiredCumulative))])))
  | some voucher =>
      match config.lookupChannel voucher.channelId with
      | none => .ok (.refused 402 (("error", .text "channel not open") :: config.instructions))
      | some ch =>
          if ch.consumed = true then
            .ok (.refused 403 [("error", .text "channel already settled or reclaimed")])
          else if config.currentBlock.any (ch.expiryBlock < ·) then
            .ok (.refused 403 [("error", .text "channel expired")])
          else do
            if (← verifyVoucher C voucher) = false then
              return .refused 403 [("error", .text "invalid voucher signature")]
            else if voucher.Ax ≠ ch.payerAx ∨ voucher.Ay ≠ ch.payerAy then
              return .refused 403 [("error", .text "voucher not signed by channel payer")]
            else if ch.cap < voucher.cumulative then
              return .refused 403 [("error", .text "voucher exceeds channel cap")]
            else if voucher.cumulative < config.requiredCumulative then
              return .refused 402 ([("error", .text "insufficient payment"),
                ("requiredCumulative", .text (toString config.requiredCumulative)),
                ("providedCumulative", .text (toString voucher.cumulative))] ++ config.instructions)
            else return .ok voucher

/-- `parseVoucherHeader` followed by `checkX402`. -/
def gate (headerValue : Option String) (config : X402Config α) : Except AgentError (X402Result α) :=
  checkX402 C (parseVoucherHeader N headerValue) config

/-! ## What the gate admits -/

/-- The channel of an id is there, and neither consumed nor expired. -/
def X402Config.Serves (config : X402Config α) (channelId : ℤ) (ch : ChannelInfo) : Prop :=
  config.lookupChannel channelId = some ch ∧ ch.consumed = false ∧
    ∀ block, config.currentBlock = some block → block ≤ ch.expiryBlock

/-- The voucher pays: it is for a channel that is served, carries a valid signature by its payer's
key, and its amount is what is required and within the cap. -/
def Admits (config : X402Config α) (v : Voucher) : Prop :=
  ∃ ch, config.Serves v.channelId ch ∧ verifyVoucher C v = .ok true ∧ v.Ax = ch.payerAx ∧
    v.Ay = ch.payerAy ∧ config.requiredCumulative ≤ v.cumulative ∧ v.cumulative ≤ ch.cap

/-- What `BigInt` makes of a field of the parsed header. -/
def bigIntField (w : Json) (name : String) : Option ℤ :=
  (w.get name).bind (Json.toBigInt N.numberText)

/-- The number in the header is whole, or the gate does not come to it: the header is no JSON, lacks a
field, has a field that is not converted, or names a channel that is not served. -/
def SeqWhole (headerValue : Option String) (config : X402Config α) : Prop :=
  ∀ header w channelId ch seq, headerValue = some header → header ≠ "" → N.decode header = some w →
    bigIntField N w "channelId" = some channelId → config.Serves channelId ch →
    (∀ name ∈ ["cumulative", "R8x", "R8y", "S", "Ax", "Ay"], (bigIntField N w name).isSome) →
    (w.get "seq").bind (Json.toNumber N.numberText) = some seq → ∃ n, seq.toInt? = some n

end

section
variable {α : Type} {N : Node} {C : Circomlib} {config : X402Config α} {v : Voucher}

/-- A header is parsed if it decodes and each of its fields is read. -/
theorem parseVoucherHeader_eq_some {headerValue : Option String} :
    parseVoucherHeader N headerValue = some v ↔ ∃ header w, headerValue = some header ∧ header ≠ "" ∧
      N.decode header = some w ∧ bigIntField N w "channelId" = some v.channelId ∧
      bigIntField N w "cumulative" = some v.cumulative ∧
      (w.get "seq").bind (Json.toNumber N.numberText) = some v.seq ∧
      bigIntField N w "R8x" = some v.R8x ∧ bigIntField N w "R8y" = some v.R8y ∧
      bigIntField N w "S" = some v.S ∧ bigIntField N w "Ax" = some v.Ax ∧
      bigIntField N w "Ay" = some v.Ay := by
  have hfield : ∀ {β γ : Type} {o : Option β} {f : β → Option γ} {x : β} {b : γ},
      o = some x → f x = some b → o.bind f = some b := by
    rintro β γ o f x b rfl hb
    exact hb
  constructor
  · intro h
    obtain ⟨header, hh, h⟩ := Option.bind_eq_some_iff.1 h
    obtain ⟨hne, h⟩ := Option.ite_none_left_eq_some.1 h
    obtain ⟨w, hw, h⟩ := Option.bind_eq_some_iff.1 h
    obtain ⟨_, hc, h⟩ := Option.bind_eq_some_iff.1 h
    obtain ⟨_, hcum, h⟩ := Option.bind_eq_some_iff.1 h
    obtain ⟨_, hseq, h⟩ := Option.bind_eq_some_iff.1 h
    obtain ⟨_, hR8x, h⟩ := Option.bind_eq_some_iff.1 h
    obtain ⟨_, hR8y, h⟩ := Option.bind_eq_some_iff.1 h
    obtain ⟨_, hS, h⟩ := Option.bind_eq_some_iff.1 h
    obtain ⟨_, hAx, h⟩ := Option.bind_eq_some_iff.1 h
    obtain ⟨_, hAy, h⟩ := Option.bind_eq_some_iff.1 h
    obtain ⟨_, hc', h⟩ := Option.bind_eq_some_iff.1 h
    obtain ⟨_, hcum', h⟩ := Option.bind_eq_some_iff.1 h
    obtain ⟨_, hseq', h⟩ := Option.bind_eq_some_iff.1 h
    obtain ⟨_, hR8x', h⟩ := Option.bind_eq_some_iff.1 h
    obtain ⟨_, hR8y', h⟩ := Option.bind_eq_some_iff.1 h
    obtain ⟨_, hS', h⟩ := Option.bind_eq_some_iff.1 h
    obtain ⟨_, hAx', h⟩ := Option.bind_eq_some_iff.1 h
    obtain ⟨_, hAy', h⟩ := Option.bind_eq_some_iff.1 h
    cases h
    exact ⟨header, w, hh, hne, hw, hfield hc hc', hfield hcum hcum', hfield hseq hseq', hfield hR8x hR8x',
      hfield hR8y hR8y', hfield hS hS', hfield hAx hAx', hfield hAy hAy'⟩
  · rintro ⟨header, w, hh, hne, hw, hc, hcum, hseq, hR8x, hR8y, hS, hAx, hAy⟩
    obtain ⟨_, hc, hc'⟩ := Option.bind_eq_some_iff.1 hc
    obtain ⟨_, hcum, hcum'⟩ := Option.bind_eq_some_iff.1 hcum
    obtain ⟨_, hseq, hseq'⟩ := Option.bind_eq_some_iff.1 hseq
    obtain ⟨_, hR8x, hR8x'⟩ := Option.bind_eq_some_iff.1 hR8x
    obtain ⟨_, hR8y, hR8y'⟩ := Option.bind_eq_some_iff.1 hR8y
    obtain ⟨_, hS, hS'⟩ := Option.bind_eq_some_iff.1 hS
    obtain ⟨_, hAx, hAx'⟩ := Option.bind_eq_some_iff.1 hAx
    obtain ⟨_, hAy, hAy'⟩ := Option.bind_eq_some_iff.1 hAy
    exact hfield hh (Option.ite_none_left_eq_some.2 ⟨hne, hfield hw <| hfield hc <| hfield hcum <|
      hfield hseq <| hfield hR8x <| hfield hR8y <| hfield hS <| hfield hAx <| hfield hAy <|
      hfield hc' <| hfield hcum' <| hfield hseq' <| hfield hR8x' <| hfield hR8y' <| hfield hS' <|
      hfield hAx' <| hfield hAy' rfl⟩)

/-- `BigInt` of a number is the integer it is. -/
theorem bigInt_eq_ok {x : Number} {n : ℤ} : bigInt x = .ok n ↔ x.toInt? = some n := by
  cases x with
  | finite x =>
      simp only [bigInt, Number.toInt?]
      split <;> simp
  | _ => simp [bigInt, Number.toInt?]

/-- The signature check returns on whole numbers only. -/
theorem verifyVoucher_returns : (∃ r, verifyVoucher C v = .ok r) ↔ ∃ n, v.seq.toInt? = some n := by
  simp only [verifyVoucher, voucherMessage, messageFields, bind_eq_ok, map_eq_ok, pure_eq_ok,
    bigInt_eq_ok]
  constructor
  · rintro ⟨_, _, ⟨_, ⟨n, hn, -⟩, -⟩, -⟩
    exact ⟨n, hn⟩
  · rintro ⟨n, hn⟩
    exact ⟨_, _, ⟨_, ⟨n, hn, rfl⟩, rfl⟩, rfl⟩

/-- A channel is served if it is known, not consumed and not expired. -/
theorem serves_iff {channelId : ℤ} {ch : ChannelInfo} : config.Serves channelId ch ↔
    config.lookupChannel channelId = some ch ∧ ch.consumed = false ∧
      config.currentBlock.any (ch.expiryBlock < ·) = false := by
  rw [X402Config.Serves]
  cases config.currentBlock with
  | none => simp
  | some block => simp

/-- Without a channel that is served the gate refuses. -/
theorem checkX402_of_not_serves (h : ∀ ch, ¬ config.Serves v.channelId ch) :
    ∃ status body, checkX402 C (some v) config = .ok (.refused status body) := by
  rw [checkX402]
  cases hlook : config.lookupChannel v.channelId with
  | none => exact ⟨_, _, rfl⟩
  | some ch =>
      have hch := h ch
      rw [serves_iff, not_and, not_and, Bool.not_eq_false] at hch
      by_cases hcon : ch.consumed = true
      · exact ⟨_, _, if_pos hcon⟩
      · exact ⟨_, _, (if_neg hcon).trans (if_pos (hch hlook (Bool.eq_false_iff.2 hcon)))⟩

/-- On a channel that is served the gate goes on to the signature. -/
theorem checkX402_of_serves {ch : ChannelInfo} (h : config.Serves v.channelId ch) :
    checkX402 C (some v) config = do
      if (← verifyVoucher C v) = false then
        return .refused 403 [("error", .text "invalid voucher signature")]
      else if v.Ax ≠ ch.payerAx ∨ v.Ay ≠ ch.payerAy then
        return .refused 403 [("error", .text "voucher not signed by channel payer")]
      else if ch.cap < v.cumulative then
        return .refused 403 [("error", .text "voucher exceeds channel cap")]
      else if v.cumulative < config.requiredCumulative then
        return .refused 402 ([("error", .text "insufficient payment"),
          ("requiredCumulative", .text (toString config.requiredCumulative)),
          ("providedCumulative", .text (toString v.cumulative))] ++ config.instructions)
      else return .ok v := by
  obtain ⟨hlook, hcon, hexp⟩ := serves_iff.1 h
  simp only [checkX402, hlook, hcon, hexp, Bool.false_eq_true, if_false]

/-- The check returns unless it comes to a sequence number that is no integer. -/
theorem checkX402_returns : (∃ r, checkX402 C (some v) config = .ok r) ↔
    ∀ ch, config.Serves v.channelId ch → ∃ n, v.seq.toInt? = some n := by
  by_cases hserves : ∃ ch, config.Serves v.channelId ch
  · obtain ⟨ch, hch⟩ := hserves
    have hwhole : (∃ r, checkX402 C (some v) config = .ok r) ↔ ∃ r, verifyVoucher C v = .ok r := by
      rw [checkX402_of_serves hch]
      constructor
      · rintro ⟨r, hr⟩
        obtain ⟨valid, hvalid, -⟩ := bind_eq_ok.1 hr
        exact ⟨valid, hvalid⟩
      · rintro ⟨valid, hvalid⟩
        rw [hvalid, ok_bind]
        repeat' split
        all_goals exact ⟨_, rfl⟩
    rw [hwhole, verifyVoucher_returns]
    exact ⟨fun hn _ _ => hn, fun hn => hn ch hch⟩
  · push Not at hserves
    obtain ⟨status, body, hr⟩ := @checkX402_of_not_serves α C config v hserves
    exact ⟨fun _ ch hch => absurd hch (hserves ch), fun _ => ⟨_, hr⟩⟩

/-- **What is admitted pays.** -/
theorem checkX402_admits {o : Option Voucher} (h : checkX402 C o config = .ok (.ok v)) :
    o = some v ∧ Admits C config v := by
  cases o with
  | none => cases h
  | some u =>
      by_cases hserves : ∃ ch, config.Serves u.channelId ch
      · obtain ⟨ch, hch⟩ := hserves
        rw [checkX402_of_serves hch] at h
        obtain ⟨valid, hvalid, h⟩ := bind_eq_ok.1 h
        split at h
        · cases h
        · next htrue =>
          split at h
          · cases h
          · next hkey =>
            split at h
            · cases h
            · next hcap =>
              split at h
              · cases h
              · next hreq =>
                cases h
                rw [Bool.not_eq_false] at htrue
                push Not at hkey
                exact ⟨rfl, ch, hch, htrue ▸ hvalid, hkey.1, hkey.2, not_lt.1 hreq, not_lt.1 hcap⟩
      · push Not at hserves
        obtain ⟨status, body, hr⟩ := @checkX402_of_not_serves α C config u hserves
        rw [hr] at h
        cases h

/-- **When the gate meets its purpose.** For a header and a configuration it returns, and admits what
pays only, if and only if the number in the header is whole or does not matter. -/
theorem gate_iff (N : Node) (C : Circomlib) (headerValue : Option String) (config : X402Config α) :
    ((∃ r, gate N C headerValue config = .ok r) ∧ ∀ v, gate N C headerValue config = .ok (.ok v) →
      parseVoucherHeader N headerValue = some v ∧ Admits C config v) ↔
      SeqWhole N headerValue config := by
  have hadmits : ∀ v, gate N C headerValue config = .ok (.ok v) →
      parseVoucherHeader N headerValue = some v ∧ Admits C config v := fun v => checkX402_admits
  rw [and_iff_left hadmits, gate]
  constructor
  · intro hr header w channelId ch seq hheader hne hw hid hch hfields hseq
    obtain ⟨cum, hcum⟩ := Option.isSome_iff_exists.1 (hfields "cumulative" (by simp))
    obtain ⟨R8x, hR8x⟩ := Option.isSome_iff_exists.1 (hfields "R8x" (by simp))
    obtain ⟨R8y, hR8y⟩ := Option.isSome_iff_exists.1 (hfields "R8y" (by simp))
    obtain ⟨S, hS⟩ := Option.isSome_iff_exists.1 (hfields "S" (by simp))
    obtain ⟨Ax, hAx⟩ := Option.isSome_iff_exists.1 (hfields "Ax" (by simp))
    obtain ⟨Ay, hAy⟩ := Option.isSome_iff_exists.1 (hfields "Ay" (by simp))
    have hparse : parseVoucherHeader N headerValue = some ⟨channelId, cum, seq, R8x, R8y, S, Ax, Ay⟩ :=
      parseVoucherHeader_eq_some.2 ⟨header, w, hheader, hne, hw, hid, hcum, hseq, hR8x, hR8y, hS, hAx,
        hAy⟩
    rw [hparse] at hr
    exact checkX402_returns.1 hr ch hch
  · intro hwhole
    cases hparse : parseVoucherHeader N headerValue with
    | none => exact ⟨_, rfl⟩
    | some v =>
        obtain ⟨header, w, hheader, hne, hw, hid, hcum, hseq, hR8x, hR8y, hS, hAx, hAy⟩ :=
          parseVoucherHeader_eq_some.1 hparse
        refine checkX402_returns.2 fun ch hch =>
          hwhole header w v.channelId ch v.seq hheader hne hw hid hch ?_ hseq
        simp [hcum, hR8x, hR8y, hS, hAx, hAy]

/-! ## A header on which it throws -/

/-- A voucher for channel 3 whose number is `1.5`, as it stands in the header. -/
def fractionalHeader : String :=
  "eyJjaGFubmVsSWQiOiIzIiwiY3VtdWxhdGl2ZSI6IjEwIiwic2VxIjoxLjUs" ++
  "IlI4eCI6IjEiLCJSOHkiOiIxIiwiUyI6IjEiLCJBeCI6IjEiLCJBeSI6IjEi" ++
  "fQ=="

/-- The JSON value in it. -/
def fractionalWire : Json :=
  .object [("channelId".toList, .string "3".toList), ("cumulative".toList, .string "10".toList),
    ("seq".toList, .number (Number.ofRat (3 / 2))), ("R8x".toList, .string "1".toList),
    ("R8y".toList, .string "1".toList), ("S".toList, .string "1".toList),
    ("Ax".toList, .string "1".toList), ("Ay".toList, .string "1".toList)]

/-- The text of the one number in it. -/
def threeHalvesText : Number → List Char := fun _ => "1.5".toList

/-- The text of one and a half is read back. -/
theorem reads_threeHalves : Json.Reads threeHalvesText (Number.ofRat (3 / 2)) where
  finite := by
    have hlt : |roundDouble (3 / 2)| < 2 ^ 1024 := by decide +kernel
    exact ⟨_, dif_pos hlt⟩
  grammar := by decide
  value := by
    have hvalue : Text.unsignedDecimal "1.5".toList = some (3 / 2) := by decide +kernel
    have hdecimal : Text.toNumber "1.5".toList = Text.decimal false "1.5".toList := by rfl
    rw [threeHalvesText, hdecimal, Text.decimal, if_neg (by decide), hvalue]
    rfl

/-- Node decodes the header: its text is that of the value, which reads back. -/
theorem decode_fractionalHeader (numberText : Number → List Char) :
    (nodeJs numberText).decode fractionalHeader = some fractionalWire := by
  -- literals are read as lists first: evaluating `String.toList` is slow
  have hdigit : Base64.digit = fun n => List.getD _ n 'A' :=
    funext fun n => congrArg (List.getD · n 'A') String.toList_ofList
  have hheader : fractionalHeader.toList =
      Base64.encode (Text.utf8 (Json.print threeHalvesText fractionalWire)) := by
    refine String.toList_append.trans (.trans (congrArg₂ _ (String.toList_append.trans
      (congrArg₂ _ String.toList_ofList String.toList_ofList)) String.toList_ofList) ?_)
    rw [Base64.encode, hdigit]
    decide +kernel
  have hnames : Json.plainNames wireNames := by decide
  rw [decode_nodeJs, hheader, Base64.fromBase64_encode, Text.decodeUtf8_utf8]
  exact Json.parse_print ⟨Json.ofFields_eq_self hnames, trivial, trivial, reads_threeHalves, trivial,
    trivial, trivial, trivial, trivial, trivial⟩

/-- A service that asks for 10 units on channel 3. -/
def sampleConfig : X402Config Unit where
  requiredCumulative := 10
  lookupChannel channelId := if channelId = 3 then some ⟨100, 1, 1, false, 1000⟩ else none
  currentBlock := some 5
  paymentInstructions := []

/-- Whatever the library, the gate throws the `RangeError` of the signature check. -/
theorem gate_throws :
    (∀ (C : Circomlib) (numberText : Number → List Char),
      gate (nodeJs numberText) C (some fractionalHeader) sampleConfig = .error .notWhole) ∧
    ¬ ∃ (C : Circomlib) (numberText : Number → List Char),
      (∃ r, gate (nodeJs numberText) C (some fractionalHeader) sampleConfig = .ok r) ∧
      ∀ v, gate (nodeJs numberText) C (some fractionalHeader) sampleConfig = .ok (.ok v) →
        parseVoucherHeader (nodeJs numberText) (some fractionalHeader) = some v ∧
          Admits C sampleConfig v := by
  have hparse : ∀ numberText, parseVoucherHeader (nodeJs numberText) (some fractionalHeader) =
      some ⟨3, 10, Number.ofRat (3 / 2), 1, 1, 1, 1, 1⟩ := by
    intro numberText
    refine parseVoucherHeader_eq_some.2 ⟨fractionalHeader, fractionalWire, rfl, by decide,
      decode_fractionalHeader numberText, ?_, ?_, rfl, ?_, ?_, ?_, ?_, ?_⟩ <;> rfl
  have hseq : bigInt (Number.ofRat (3 / 2)) = .error .notWhole := by
    have hround : roundDouble (3 / 2) = 3 / 2 := by decide +kernel
    rcases Number.ofRat_cases (3 / 2) with ⟨x, hx, hv⟩ | hinf
    · rw [hx, bigInt, if_neg (by rw [hv, hround]; decide +kernel)]
    · rw [hinf]
      rfl
  have hthrow : ∀ (C : Circomlib) (numberText : Number → List Char),
      gate (nodeJs numberText) C (some fractionalHeader) sampleConfig = .error .notWhole := by
    intro C numberText
    rw [gate, hparse, @checkX402_of_serves Unit C _ _ ⟨100, 1, 1, false, 1000⟩]
    · rw [verifyVoucher, voucherMessage, messageFields, hseq]
      rfl
    · exact ⟨rfl, rfl, by simp [sampleConfig]⟩
  refine ⟨hthrow, ?_⟩
  rintro ⟨C, numberText, ⟨r, hr⟩, -⟩
  rw [hthrow] at hr
  cases hr

end

end ShadePay.Streams
