import ShadePay.Streams.X402

/-!
# Vouchers in headers

`serializeVoucherHeader` of `apps/api/src/x402.ts` writes a voucher as base64 of a JSON text, and
`parseVoucherHeader` reads it back. The decoders of Node are those of the library here; the text of a
number stays a parameter, which is asked for what reads back to the number it came from.
`header_serves` follows a voucher from the payer's side through the gate.
-/

namespace ShadePay.Streams

open Guard

section
variable (numberText : Number → List Char)

/-- A field of the wire format that is an integer. -/
def intField (name : String) (z : ℤ) : List Char × Json := (name.toList, .string (Text.ofInt z))

/-- `VoucherWire`, as `serializeVoucherHeader` fills it. -/
def Voucher.wire (v : Voucher) : Json :=
  .object [intField "channelId" v.channelId, intField "cumulative" v.cumulative,
    ("seq".toList, .number v.seq), intField "R8x" v.R8x, intField "R8y" v.R8y, intField "S" v.S,
    intField "Ax" v.Ax, intField "Ay" v.Ay]

/-- `serializeVoucherHeader`. -/
def serializeVoucherHeader (v : Voucher) : String :=
  String.ofList (Base64.encode (Text.utf8 (Json.print numberText v.wire)))

/-- The voucher that arrives: a number that is none in JSON is written as `null` and read as zero. -/
def Voucher.sent (v : Voucher) : Voucher :=
  { v with seq := match v.seq with
    | .finite x => .finite x
    | _ => Number.ofRat 0 }

end

section
variable {numberText : Number → List Char} {v : Voucher}

/-- What is parsed: the wire format with `null` for a number that is none in JSON. -/
def Voucher.parsed (v : Voucher) : Json :=
  .object [intField "channelId" v.channelId, intField "cumulative" v.cumulative,
    ("seq".toList, match v.seq with
      | .finite x => .number (.finite x)
      | _ => .null), intField "R8x" v.R8x, intField "R8y" v.R8y, intField "S" v.S,
    intField "Ax" v.Ax, intField "Ay" v.Ay]

/-- What is parsed prints as what was sent. -/
theorem print_parsed (v : Voucher) : Json.print numberText v.parsed = Json.print numberText v.wire := by
  obtain ⟨channelId, cumulative, seq, R8x, R8y, S, Ax, Ay⟩ := v
  cases seq <;> rfl

/-- The number of the voucher is written so that it reads back, if it is a number of JSON. -/
def SeqReads (numberText : Number → List Char) (v : Voucher) : Prop :=
  ∀ x, v.seq = .finite x → Json.Reads numberText v.seq

/-- What is parsed can be printed. -/
theorem printable_parsed (h : SeqReads numberText v) : Json.Printable numberText v.parsed := by
  have hnames : Json.plainNames wireNames := by decide
  refine ⟨Json.ofFields_eq_self hnames, ?_⟩
  obtain ⟨channelId, cumulative, seq, R8x, R8y, S, Ax, Ay⟩ := v
  cases seq with
  | finite x => exact ⟨trivial, trivial, h x rfl, trivial, trivial, trivial, trivial, trivial, trivial⟩
  | _ => exact ⟨trivial, trivial, trivial, trivial, trivial, trivial, trivial, trivial, trivial⟩

/-- The header decodes to the wire format. -/
theorem decode_header (h : SeqReads numberText v) :
    (nodeJs numberText).decode (serializeVoucherHeader numberText v) = some v.parsed := by
  rw [decode_nodeJs, serializeVoucherHeader, String.toList_ofList, Base64.fromBase64_encode,
    Text.decodeUtf8_utf8, ← print_parsed, Json.parse_print (printable_parsed h)]

/-- A header is not empty. -/
theorem header_ne_empty (h : SeqReads numberText v) : serializeVoucherHeader numberText v ≠ "" := by
  intro hempty
  have hnone : Json.parse (Text.decodeUtf8 (Base64.fromBase64 "".toList)) = none := rfl
  have hdecode := decode_header h
  rw [hempty, decode_nodeJs, hnone] at hdecode
  exact Option.some_ne_none _ hdecode.symm

/-- A voucher is read back as it was sent. -/
theorem parse_serialize (h : SeqReads numberText v) :
    parseVoucherHeader (nodeJs numberText) (some (serializeVoucherHeader numberText v)) =
      some v.sent := by
  have hint : ∀ z : ℤ, (some (Json.string (Text.ofInt z))).bind (Json.toBigInt numberText) = some z :=
    fun z => Text.toBigInt_ofInt z
  refine parseVoucherHeader_eq_some.2 ⟨_, v.parsed, rfl, header_ne_empty h, decode_header h, hint _,
    hint _, ?_, hint _, hint _, hint _, hint _, hint _⟩
  obtain ⟨channelId, cumulative, seq, R8x, R8y, S, Ax, Ay⟩ := v
  cases seq <;> rfl

/-- A finite sequence number is sent as it is. -/
theorem sent_of_finite {x : Double} (h : v.seq = .finite x) : v.sent = v := by
  obtain ⟨channelId, cumulative, seq, R8x, R8y, S, Ax, Ay⟩ := v
  obtain rfl : seq = .finite x := h
  rfl

/-- Sequence numbers that are finite are sent as they are, and no others. -/
theorem sent_eq_iff : v.sent = v ↔ ∃ x, v.seq = .finite x := by
  constructor
  · intro h
    have hseq := congrArg Voucher.seq h
    obtain ⟨y, hy, -⟩ := Number.ofRat_natCast (n := 0) (by norm_num)
    rw [Nat.cast_zero] at hy
    cases hv : v.seq with
    | finite x => exact ⟨x, rfl⟩
    | nan => simp [Voucher.sent, hv, hy] at hseq
    | infinity negative => simp [Voucher.sent, hv, hy] at hseq
  · rintro ⟨x, hx⟩
    exact sent_of_finite hx

/-- A voucher that pays is admitted. -/
theorem checkX402_of_admits {α : Type} {C : Circomlib} {config : X402Config α} (h : Admits C config v) :
    checkX402 C (some v) config = .ok (.ok v) := by
  obtain ⟨ch, hch, hvalid, hx, hy, hreq, hcap⟩ := h
  rw [checkX402_of_serves hch, hvalid, ok_bind, if_neg (by simp), if_neg (by simp [hx, hy]),
    if_neg (not_lt.2 hcap), if_neg (not_lt.2 hreq)]
  rfl

/-- A character of a header. -/
theorem mem_header {c : Char} (h : c ∈ (serializeVoucherHeader numberText v).toList) :
    c ∈ Base64.alphabet ∨ c = '=' := by
  rw [serializeVoucherHeader, String.toList_ofList] at h
  rcases List.mem_append.1 h with h | h
  · obtain ⟨n, hn, rfl⟩ := List.mem_map.1 h
    exact .inl (Base64.digit_mem (Base64.sextets_lt n hn))
  · exact .inr (List.eq_of_mem_replicate h)

/-- **Vouchers travel in headers.** A voucher that is sent in a header arrives as it was, except that a
number that JSON has no text for arrives as zero; the header consists of base64 digits. A voucher whose
number is a number of JSON is admitted by the gate exactly when it pays, and nothing else is. -/
theorem header_serves {α : Type} (C : Circomlib) (config : X402Config α) (h : SeqReads numberText v) :
    parseVoucherHeader (nodeJs numberText) (some (serializeVoucherHeader numberText v)) = some v.sent ∧
      (parseVoucherHeader (nodeJs numberText) (some (serializeVoucherHeader numberText v)) = some v ↔
        ∃ x, v.seq = .finite x) ∧
      (∀ c ∈ (serializeVoucherHeader numberText v).toList, c ∈ Base64.alphabet ∨ c = '=') ∧
      ((∃ x, v.seq = .finite x) → ∀ u,
        gate (nodeJs numberText) C (some (serializeVoucherHeader numberText v)) config = .ok (.ok u) ↔
          u = v ∧ Admits C config v) := by
  have hparse := parse_serialize h
  refine ⟨hparse, ?_, fun c => mem_header, fun hfinite u => ?_⟩
  · rw [hparse, Option.some.injEq, sent_eq_iff]
  · rw [gate, hparse, sent_eq_iff.2 hfinite]
    constructor
    · intro hu
      obtain ⟨heq, hadmits⟩ := checkX402_admits hu
      obtain rfl := Option.some.inj heq
      exact ⟨rfl, hadmits⟩
    · rintro ⟨rfl, hadmits⟩
      exact checkX402_of_admits hadmits

end

/-- A voucher with the number 7. -/
def seventhVoucher : Voucher := ⟨3, 10, Number.ofRat 7, 1, 1, 1, 1, 1⟩

/-- The header of a voucher with sequence number 7 is parsed back. -/
theorem header_serves_seven : parseVoucherHeader (nodeJs fun _ => ['7'])
    (some (serializeVoucherHeader (fun _ => ['7']) seventhVoucher)) = some seventhVoucher := by
  obtain ⟨y, hy, -⟩ := Number.ofRat_natCast (n := 7) (by norm_num)
  have hseven : seventhVoucher.seq = .finite y := by exact_mod_cast hy
  have hreads : SeqReads (fun _ => ['7']) seventhVoucher := fun _ _ =>
    ⟨⟨y, hseven⟩, by decide, by exact_mod_cast Text.toNumber_toDigits 7⟩
  have hserves := header_serves (α := Unit) ⟨fun _ => 0, fun _ _ => (0, 0, 0), fun _ _ _ => true⟩
    sampleConfig hreads
  exact hserves.2.1.2 ⟨y, hseven⟩

end ShadePay.Streams
