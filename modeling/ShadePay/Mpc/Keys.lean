import ShadePay.Mpc.Shares
import ShadePay.Lib.Interleave
import ShadePay.Lib.Table

/-!
# The keys of the committee

`apps/mpc-committee/src/keys.ts`: the processes of a deployment load the key pairs of their nodes
from one table, and generate and insert those that are missing. Between the `SELECT` and the
`INSERT`s of one call any statements of other calls may run; the table refuses a second row for a
node, and the call does not look whether its row went in. `stored_keys_of_run` says what a call
returns whatever the others do; `keys_differ` that two calls for one node may return two keys.
-/

namespace ShadePay.Mpc

open Stellar Guard

/-! ## Rows -/

/-- `KeyRow`. -/
structure KeyRow where
  nodeId : String
  encryptionPubkey : String
  encryptionSecret : String
  signingPubkey : String
  signingSecret : String
deriving DecidableEq

/-- A `nacl.BoxKeyPair` or `nacl.SignKeyPair`. -/
structure KeyPair where
  publicKey : List UInt8
  secretKey : List UInt8
deriving DecidableEq

/-- `CommitteeNodeKeyPair` with all of its keys. -/
structure NodeKeys where
  nodeId : String
  encryptionKeyPair : KeyPair
  signingKeyPair : KeyPair
deriving DecidableEq

/-- AES-256-GCM: a ciphertext and its tag; the plaintext, unless the tag is wrong. -/
structure Gcm where
  encrypt : List UInt8 → BytesN 12 → List UInt8 → List UInt8 × BytesN 16
  decrypt : List UInt8 → List UInt8 → List UInt8 → List UInt8 → Option (List UInt8)

/-- What is encrypted under a key is decrypted with it. -/
def Gcm.Opens (G : Gcm) : Prop :=
  ∀ key iv m, G.decrypt key iv.bytes (G.encrypt key iv m).2.bytes (G.encrypt key iv m).1 = some m

section
variable (G : Gcm) (key : List UInt8)

/-- `encryptSecret`: initial value, tag and ciphertext. -/
def encryptSecret (plainHex : String) (iv : BytesN 12) : String :=
  hexString (iv.bytes ++ (G.encrypt key iv (hexBytes plainHex)).2.bytes ++
    (G.encrypt key iv (hexBytes plainHex)).1)

/-- `decryptSecret`. -/
def decryptSecret (encHex : String) : Option String :=
  (G.decrypt key ((hexBytes encHex).take 12) (((hexBytes encHex).drop 12).take 16)
    ((hexBytes encHex).drop 28)).map hexString

/-- `rowToKeyPair`; `none` when a tag is wrong. -/
def rowToKeyPair (row : KeyRow) : Option NodeKeys := do
  let encryptionSecret ← decryptSecret G key row.encryptionSecret
  let signingSecret ← decryptSecret G key row.signingSecret
  return ⟨row.nodeId, ⟨hexBytes row.encryptionPubkey, hexBytes encryptionSecret⟩,
    ⟨hexBytes row.signingPubkey, hexBytes signingSecret⟩⟩

/-- `keyPairToRow`, with the initial values it draws. -/
def keyPairToRow (kp : NodeKeys) (encryptionIv signingIv : BytesN 12) : KeyRow where
  nodeId := kp.nodeId
  encryptionPubkey := hexString kp.encryptionKeyPair.publicKey
  encryptionSecret := encryptSecret G key (hexString kp.encryptionKeyPair.secretKey) encryptionIv
  signingPubkey := hexString kp.signingKeyPair.publicKey
  signingSecret := encryptSecret G key (hexString kp.signingKeyPair.secretKey) signingIv

/-! ## Calls -/

/-- Where a call of `loadOrGenerateKeys` stands: before its `SELECT`, in its loop, or at its end. -/
inductive Loading where
  | selecting
  | generating (rest : List String) (existing : List NodeKeys) (keypairs : List NodeKeys)
  | returned (keypairs : List NodeKeys)
  | threw

/-- A call. `lost` are the nodes for which its `INSERT` did nothing, a record of the run that no
function reads. -/
structure LoadCall where
  nodeIds : List String
  loading : Loading
  lost : List String

/-- The two key pairs that the loop generates, and the initial values for their secrets. -/
structure Draw where
  encryptionKeyPair : KeyPair
  signingKeyPair : KeyPair
  encryptionIv : BytesN 12
  signingIv : BytesN 12

/-- A call before it does anything. -/
def LoadCall.start (nodeIds : List String) : LoadCall := ⟨nodeIds, .selecting, []⟩

/-- The key pair that a call generates for a node. -/
def Draw.keys (a : Draw) (nodeId : String) : NodeKeys :=
  ⟨nodeId, a.encryptionKeyPair, a.signingKeyPair⟩

/-- The row for it. -/
def Draw.row (a : Draw) (nodeId : String) : KeyRow :=
  keyPairToRow G key (a.keys nodeId) a.encryptionIv a.signingIv

/-- The next statement of `loadOrGenerateKeys`, up to the statement after it. The order of the rows
is not looked at: they go into a map. -/
def loadOrGenerateKeys (c : LoadCall) (table : List KeyRow) (a : Draw) :
    Option (List KeyRow × LoadCall) :=
  match c.loading with
  | .selecting =>
      let rows := table.filter fun row => row.nodeId ∈ c.nodeIds
      if rows.length = c.nodeIds.length then
        match c.nodeIds.mapM fun id => (rows.find? (·.nodeId = id)).bind (rowToKeyPair G key) with
        | some keypairs => some (table, { c with loading := .returned keypairs })
        | none => some (table, { c with loading := .threw })
      else
        match rows.mapM (rowToKeyPair G key) with
        | some existing => some (table, { c with loading := .generating c.nodeIds existing [] })
        | none => some (table, { c with loading := .threw })
  | .generating [] _ keypairs => some (table, { c with loading := .returned keypairs })
  | .generating (id :: rest) existing keypairs =>
      match existing.find? (·.nodeId = id) with
      | some kp => some (table, { c with loading := .generating rest existing (keypairs ++ [kp]) })
      | none =>
          some (Table.insertNew (·.nodeId = id) (a.row G key id) table,
            { c with
              loading := .generating rest existing (keypairs ++ [a.keys id])
              lost := if table.any (·.nodeId = id) then c.lost ++ [id] else c.lost })
  | .returned _ | .threw => none

end

/-! ## Secrets come back -/

section
variable {G : Gcm} {key : List UInt8} {table : List KeyRow}

/-- An encrypted secret is decrypted. -/
theorem decryptSecret_encryptSecret (hG : G.Opens) (plain : List UInt8) (iv : BytesN 12) :
    decryptSecret G key (encryptSecret G key (hexString plain) iv) = some (hexString plain) := by
  have hiv := iv.length_eq
  have htag := (G.encrypt key iv plain).2.length_eq
  rw [decryptSecret, encryptSecret, hexBytes_hexString, hexBytes_hexString, List.append_assoc,
    List.take_left' hiv, List.drop_left' hiv, List.take_left' htag, ← List.append_assoc,
    List.drop_left' (by rw [List.length_append, hiv, htag]), hG, Option.map_some]

/-- A stored pair of keys is read back. -/
theorem rowToKeyPair_keyPairToRow (hG : G.Opens) (kp : NodeKeys) (iv iv' : BytesN 12) :
    rowToKeyPair G key (keyPairToRow G key kp iv iv') = some kp := by
  simp only [rowToKeyPair, keyPairToRow, decryptSecret_encryptSecret hG, hexBytes_hexString,
    Option.bind_eq_bind, Option.bind_some, Option.pure_def]

/-! ## What holds along a run -/

/-- A row of the table has these keys. -/
def Stored (G : Gcm) (key : List UInt8) (table : List KeyRow) (kp : NodeKeys) : Prop :=
  ∃ row ∈ table, row.nodeId = kp.nodeId ∧ rowToKeyPair G key row = some kp

/-- The nodes of the rows are distinct, and each row decrypts. -/
structure KeyTable (G : Gcm) (key : List UInt8) (table : List KeyRow) : Prop where
  nodup : (table.map (·.nodeId)).Nodup
  reads : ∀ row ∈ table, ∃ kp, rowToKeyPair G key row = some kp

/-- A row is read as the keys of its node. -/
theorem nodeId_of_rowToKeyPair {row : KeyRow} {kp : NodeKeys}
    (h : rowToKeyPair G key row = some kp) : kp.nodeId = row.nodeId := by
  obtain ⟨_, -, h⟩ := Option.bind_eq_some_iff.1 h
  obtain ⟨_, -, h⟩ := Option.bind_eq_some_iff.1 h
  rw [← Option.some.inj h]

/-- Stored keys stay stored. -/
theorem Stored.mono {table' : List KeyRow} {kp : NodeKeys} (h : Stored G key table kp)
    (hsub : table <+: table') : Stored G key table' kp := by
  obtain ⟨row, hrow, hkp⟩ := h
  exact ⟨row, hsub.subset hrow, hkp⟩

/-- A node has one stored key pair. -/
theorem Stored.unique {kp kp' : NodeKeys} (ht : (table.map (·.nodeId)).Nodup)
    (h : Stored G key table kp) (h' : Stored G key table kp') (hid : kp.nodeId = kp'.nodeId) :
    kp = kp' := by
  obtain ⟨row, hrow, hnode, hkp⟩ := h
  obtain ⟨row', hrow', hnode', hkp'⟩ := h'
  obtain rfl := Table.eq_of_key ht hrow hrow' (by rw [hnode, hnode', hid])
  exact Option.some.inj (hkp.symm.trans hkp')

/-- The key pairs that a call has so far are in the table, unless it lost them. -/
def LoadCall.Kept (G : Gcm) (key : List UInt8) (table : List KeyRow) (c : LoadCall)
    (keypairs : List NodeKeys) : Prop :=
  ∀ kp ∈ keypairs, kp.nodeId ∈ table.map (·.nodeId) ∧ (kp.nodeId ∉ c.lost → Stored G key table kp)

/-- What holds of a call, with the table as it was at first. -/
def LoadCall.Follows (G : Gcm) (key : List UInt8) (first table : List KeyRow) (c : LoadCall) :
    Prop :=
  (∀ id ∈ c.lost, id ∉ first.map (·.nodeId)) ∧
  match c.loading with
  | .selecting => True
  | .generating rest existing keypairs =>
      keypairs.map (·.nodeId) ++ rest = c.nodeIds ∧ (∀ kp ∈ existing, Stored G key table kp) ∧
        (∀ id ∈ c.nodeIds, id ∈ first.map (·.nodeId) → id ∈ existing.map (·.nodeId)) ∧
        c.Kept G key table keypairs
  | .returned keypairs => keypairs.map (·.nodeId) = c.nodeIds ∧ c.Kept G key table keypairs
  | .threw => False

variable {first table' : List KeyRow} {c c' : LoadCall} {a : Draw}

/-- What a call knows to be stored stays so. -/
theorem LoadCall.Kept.mono {keypairs : List NodeKeys} (h : c.Kept G key table keypairs)
    (hsub : table <+: table') : c.Kept G key table' keypairs := by
  intro kp hkp
  obtain ⟨hmem, hstored⟩ := h kp hkp
  exact ⟨(hsub.map _).subset hmem, fun hlost => (hstored hlost).mono hsub⟩

/-- What holds of a call is not disturbed by further rows. -/
theorem LoadCall.Follows.mono (h : c.Follows G key first table) (hsub : table <+: table') :
    c.Follows G key first table' := by
  obtain ⟨nodeIds, loading, lost⟩ := c
  obtain ⟨hlost, h⟩ := h
  refine ⟨hlost, ?_⟩
  cases loading with
  | selecting => trivial
  | generating rest existing keypairs =>
      obtain ⟨hids, hexisting, hcover, hkept⟩ := h
      exact ⟨hids, fun kp hkp => (hexisting kp hkp).mono hsub, hcover, hkept.mono hsub⟩
  | returned keypairs => exact ⟨h.1, h.2.mono hsub⟩
  | threw => exact h

/-- A row for a node goes in only when there is none. -/
theorem KeyTable.insertNew (ht : KeyTable G key table) {id : String} {row : KeyRow} {kp : NodeKeys}
    (hid : row.nodeId = id) (hrow : rowToKeyPair G key row = some kp) :
    KeyTable G key (Table.insertNew (·.nodeId = id) row table) := by
  refine ⟨Table.nodup_insertNew ht.nodup fun hnone r hr hnode => ?_, fun r hr => ?_⟩
  · have hne := List.any_eq_false.1 hnone r hr
    exact hne (decide_eq_true (hnode.trans hid))
  · rcases Table.mem_insertNew.1 hr with hr | ⟨-, rfl⟩
    · exact ht.reads r hr
    · exact ⟨kp, hrow⟩

/-- As many rows as nodes are all of them. -/
theorem mem_of_length_eq (ht : (table.map (·.nodeId)).Nodup) {nodeIds : List String}
    (hlen : (table.filter fun row => row.nodeId ∈ nodeIds).length = nodeIds.length) {id : String}
    (hid : id ∈ nodeIds) :
    ∃ row ∈ table.filter (fun row => row.nodeId ∈ nodeIds), row.nodeId = id := by
  have hnodup : ((table.filter fun row => row.nodeId ∈ nodeIds).map (·.nodeId)).Nodup :=
    ht.sublist (List.filter_sublist.map _)
  have hsub : (table.filter fun row => row.nodeId ∈ nodeIds).map (·.nodeId) ⊆ nodeIds := by
    intro x hx
    obtain ⟨row, hrow, rfl⟩ := List.mem_map.1 hx
    simpa using (List.mem_filter.1 hrow).2
  have hperm := (hnodup.subperm hsub).perm_of_length_le (by rw [List.length_map, hlen])
  obtain ⟨row, hrow, hnode⟩ := List.mem_map.1 (hperm.mem_iff.2 hid)
  exact ⟨row, hrow, hnode⟩

/-- The `SELECT` of a call. -/
theorem LoadCall.Follows.select (hc : c.Follows G key first table) (ht : KeyTable G key table)
    (hfirst : first <+: table) (hloading : c.loading = .selecting)
    (h : loadOrGenerateKeys G key c table a = some (table', c')) :
    table' = table ∧ c'.Follows G key first table := by
  have hstored : ∀ row ∈ table, ∀ kp, rowToKeyPair G key row = some kp → Stored G key table kp :=
    fun row hrow kp hkp => ⟨row, hrow, (nodeId_of_rowToKeyPair hkp).symm, hkp⟩
  have hkept : ∀ {keypairs : List NodeKeys}, (∀ kp ∈ keypairs, Stored G key table kp) →
      c.Kept G key table keypairs := by
    intro keypairs hall kp hkp
    obtain ⟨row, hrow, hnode, -⟩ := hall kp hkp
    exact ⟨hnode ▸ List.mem_map_of_mem hrow, fun _ => hall kp hkp⟩
  obtain ⟨nodeIds, loading, lost⟩ := c
  obtain rfl : loading = .selecting := hloading
  simp only [loadOrGenerateKeys] at h
  split at h
  · next hlen =>
    have hfound : ∀ id ∈ nodeIds, ∃ kp, ((table.filter fun row => row.nodeId ∈ nodeIds).find?
        (·.nodeId = id)).bind (rowToKeyPair G key) = some kp := by
      intro id hid
      obtain ⟨row, hrow, hnode⟩ := mem_of_length_eq ht.nodup hlen hid
      cases hfind : (table.filter fun row => row.nodeId ∈ nodeIds).find? (·.nodeId = id) with
      | none => simpa [hnode] using List.find?_eq_none.1 hfind row hrow
      | some row' =>
          exact ht.reads row' (List.mem_of_mem_filter (List.mem_of_find?_eq_some hfind))
    split at h
    · next keypairs hmap =>
      simp only [Option.some.injEq, Prod.mk.injEq] at h
      obtain ⟨rfl, rfl⟩ := h
      refine ⟨rfl, hc.1, ?_, hkept fun kp hkp => ?_⟩
      · have hids := map_of_mapM (g := id) (k := NodeKeys.nodeId) (fun id kp hkp => by
          obtain ⟨row, hfind, hrow⟩ := Option.bind_eq_some_iff.1 hkp
          rw [nodeId_of_rowToKeyPair hrow]
          simpa using List.find?_some hfind) hmap
        rwa [List.map_id] at hids
      · obtain ⟨id, -, hbind⟩ := exists_of_mapM hmap hkp
        obtain ⟨row, hfind, hrow⟩ := Option.bind_eq_some_iff.1 hbind
        exact hstored row (List.mem_of_mem_filter (List.mem_of_find?_eq_some hfind)) kp hrow
    · next hmap =>
      obtain ⟨keypairs, hsome⟩ := exists_mapM hfound
      rw [hsome] at hmap
      cases hmap
  · split at h
    · next existing hmap =>
      simp only [Option.some.injEq, Prod.mk.injEq] at h
      obtain ⟨rfl, rfl⟩ := h
      refine ⟨rfl, hc.1, rfl, fun kp hkp => ?_, fun id hid hold => ?_, fun kp hkp => by cases hkp⟩
      · obtain ⟨row, hrow, hread⟩ := exists_of_mapM hmap hkp
        exact hstored row (List.mem_of_mem_filter hrow) kp hread
      · have hids := map_of_mapM (g := KeyRow.nodeId) (k := NodeKeys.nodeId)
          (fun _ _ => nodeId_of_rowToKeyPair) hmap
        rw [hids]
        obtain ⟨row, hrow, rfl⟩ := List.mem_map.1 hold
        exact List.mem_map_of_mem (List.mem_filter.2 ⟨hfirst.subset hrow, by simpa using hid⟩)
    · next hmap =>
      obtain ⟨existing, hsome⟩ := exists_mapM fun row hrow =>
        ht.reads row (List.mem_of_mem_filter (p := fun row => row.nodeId ∈ nodeIds) hrow)
      rw [hsome] at hmap
      cases hmap

/-- A turn of the loop: the key pair of a row that was there, or one that is generated. -/
theorem LoadCall.Follows.generate (hG : G.Opens) (hc : c.Follows G key first table)
    (ht : KeyTable G key table) {rest : List String} {existing keypairs : List NodeKeys}
    (hloading : c.loading = .generating rest existing keypairs)
    (h : loadOrGenerateKeys G key c table a = some (table', c')) :
    table <+: table' ∧ KeyTable G key table' ∧ c'.Follows G key first table' := by
  obtain ⟨nodeIds, loading, lost⟩ := c
  obtain rfl : loading = .generating rest existing keypairs := hloading
  obtain ⟨hlost, hids, hexisting, hcover, hkept⟩ := hc
  replace hids : keypairs.map (·.nodeId) ++ rest = nodeIds := hids
  cases rest with
  | nil =>
      simp only [loadOrGenerateKeys, Option.some.injEq, Prod.mk.injEq] at h
      obtain ⟨rfl, rfl⟩ := h
      rw [List.append_nil] at hids
      exact ⟨List.prefix_refl _, ht, hlost, hids, hkept⟩
  | cons id rest =>
      simp only [loadOrGenerateKeys] at h
      split at h
      · next kp hfind =>
        simp only [Option.some.injEq, Prod.mk.injEq] at h
        obtain ⟨rfl, rfl⟩ := h
        have hkp : kp.nodeId = id := by simpa using List.find?_some hfind
        have hstored := hexisting kp (List.mem_of_find?_eq_some hfind)
        refine ⟨List.prefix_refl _, ht, hlost, ?_, hexisting, hcover, fun kp' hkp' => ?_⟩
        · rw [← hids, List.map_append, List.append_assoc, ← hkp]
          rfl
        · rcases List.mem_append.1 hkp' with hkp' | hkp'
          · exact hkept kp' hkp'
          · obtain rfl := List.mem_singleton.1 hkp'
            obtain ⟨row, hrow, hnode, -⟩ := hstored
            exact ⟨hnode ▸ List.mem_map_of_mem hrow,
              fun _ => hexisting _ (List.mem_of_find?_eq_some hfind)⟩
      · next hnone =>
        simp only [Option.some.injEq, Prod.mk.injEq] at h
        obtain ⟨rfl, rfl⟩ := h
        have hread : rowToKeyPair G key (a.row G key id) = some (a.keys id) :=
          rowToKeyPair_keyPairToRow hG _ _ _
        have hsub : table <+: Table.insertNew (·.nodeId = id) (a.row G key id) table :=
          Table.prefix_insertNew
        have hnew : id ∉ first.map (·.nodeId) := by
          intro hold
          have hmem : id ∈ nodeIds := by
            rw [← hids]
            simp
          obtain ⟨kp, hkp, hnode⟩ := List.mem_map.1 (hcover id hmem hold)
          simpa [hnode] using List.find?_eq_none.1 hnone kp hkp
        refine ⟨hsub, ht.insertNew rfl hread, fun id' hid' => ?_, ?_,
          fun kp hkp => (hexisting kp hkp).mono hsub, hcover, fun kp hkp => ?_⟩
        · split at hid'
          · rcases List.mem_append.1 hid' with hid' | hid'
            · exact hlost id' hid'
            · exact List.mem_singleton.1 hid' ▸ hnew
          · exact hlost id' hid'
        · rw [← hids, List.map_append, List.append_assoc]
          rfl
        · rcases List.mem_append.1 hkp with hkp | hkp
          · obtain ⟨hmem, hstored⟩ := hkept.mono hsub kp hkp
            refine ⟨hmem, fun hnot => hstored fun hold => hnot ?_⟩
            split
            · exact List.mem_append_left _ hold
            · exact hold
          · obtain rfl := List.mem_singleton.1 hkp
            unfold Table.insertNew
            split
            · next hany =>
              obtain ⟨row, hrow, hnode⟩ := List.any_eq_true.1 hany
              refine ⟨List.mem_map.2 ⟨row, hrow, of_decide_eq_true hnode⟩,
                fun hnot => absurd ?_ hnot⟩
              exact List.mem_append_right _ (List.mem_singleton_self _)
            · have hrow : a.row G key id ∈ table ++ [a.row G key id] :=
                List.mem_append_right _ (List.mem_singleton_self _)
              exact ⟨List.mem_map_of_mem (f := KeyRow.nodeId) hrow, fun _ => ⟨_, hrow, rfl, hread⟩⟩

/-- **Step lemma.** A statement of a call adds rows at most, and keeps what holds of the call. -/
theorem LoadCall.Follows.step (hG : G.Opens) (hc : c.Follows G key first table)
    (ht : KeyTable G key table) (hfirst : first <+: table)
    (h : loadOrGenerateKeys G key c table a = some (table', c')) :
    table <+: table' ∧ KeyTable G key table' ∧ c'.Follows G key first table' := by
  cases hloading : c.loading with
  | selecting =>
      obtain ⟨rfl, hc'⟩ := hc.select ht hfirst hloading h
      exact ⟨List.prefix_refl _, ht, hc'⟩
  | generating rest existing keypairs => exact hc.generate hG ht hloading h
  | returned keypairs => simp [loadOrGenerateKeys, hloading] at h
  | threw => simp [loadOrGenerateKeys, hloading] at h

/-- The outline of the calls. -/
theorem keysOutline (hG : G.Opens) (first : List KeyRow) :
    Interleave.Outline (loadOrGenerateKeys G key)
      (fun table => KeyTable G key table ∧ first <+: table)
      (fun table c => c.Follows G key first table) fun _ _ => True where
  symm := fun _ => trivial
  own hJ hc h := by
    obtain ⟨hsub, ht, hc'⟩ := hc.step hG hJ.1 hJ.2 h
    exact ⟨⟨ht, hJ.2.trans hsub⟩, hc'⟩
  other hJ hc hm _ h := by
    obtain ⟨hsub, -, -⟩ := hc.step hG hJ.1 hJ.2 h
    exact ⟨hm.mono hsub, trivial⟩

/-- **Keys survive restarts.** Let any number of calls run over a table whose rows decrypt, in any
order of their statements. Rows are only added, one for each node, and no call throws. A call that
returns has a key pair for each of its nodes in order: the stored one for each node that had a row
at first, and for every other node too unless its insert found a row there; so two calls agree on
every node that neither lost. -/
theorem stored_keys_of_run {ι : Type} [DecidableEq ι] (hG : G.Opens) (ht : KeyTable G key first)
    {nodeIds : ι → List String} {es : List (ι × Draw)}
    {s : Interleave.State ι (List KeyRow) LoadCall}
    (hrun : Interleave.run (loadOrGenerateKeys G key) ⟨first, fun i => .start (nodeIds i)⟩ es =
      some s) :
    first <+: s.shared ∧ KeyTable G key s.shared ∧ (∀ i, (s.loc i).loading ≠ .threw) ∧
      (∀ i keypairs, (s.loc i).loading = .returned keypairs →
        keypairs.map (·.nodeId) = (s.loc i).nodeIds ∧
        ∀ kp ∈ keypairs, kp.nodeId ∈ s.shared.map (·.nodeId) ∧
          (kp.nodeId ∈ first.map (·.nodeId) → Stored G key first kp) ∧
          (kp.nodeId ∉ (s.loc i).lost → Stored G key s.shared kp)) ∧
      ∀ i j keypairs keypairs', (s.loc i).loading = .returned keypairs →
        (s.loc j).loading = .returned keypairs' → ∀ kp ∈ keypairs, ∀ kp' ∈ keypairs',
          kp.nodeId = kp'.nodeId → kp.nodeId ∉ (s.loc i).lost → kp'.nodeId ∉ (s.loc j).lost →
          kp = kp' := by
  have hstart : Interleave.Holds (fun table => KeyTable G key table ∧ first <+: table)
      (fun table c => c.Follows G key first table) (fun _ _ => True)
      (⟨first, fun i => .start (nodeIds i)⟩ : Interleave.State ι (List KeyRow) LoadCall) :=
    ⟨⟨ht, List.prefix_refl _⟩, fun i => ⟨List.forall_mem_nil _, trivial⟩, fun _ _ _ => trivial⟩
  obtain ⟨⟨hs, hadded⟩, hloc, -⟩ := (keysOutline hG first).run hstart hrun
  have hreturned : ∀ i keypairs, (s.loc i).loading = .returned keypairs →
      (∀ id ∈ (s.loc i).lost, id ∉ first.map (·.nodeId)) ∧
        keypairs.map (·.nodeId) = (s.loc i).nodeIds ∧ (s.loc i).Kept G key s.shared keypairs := by
    intro i keypairs hi
    have hfollows := hloc i
    rw [LoadCall.Follows, hi] at hfollows
    exact hfollows
  refine ⟨hadded, hs, fun i hi => ?_, fun i keypairs hi => ?_, ?_⟩
  · have hfollows := hloc i
    rw [LoadCall.Follows, hi] at hfollows
    exact hfollows.2
  · obtain ⟨hlost, hids, hkept⟩ := hreturned i keypairs hi
    refine ⟨hids, fun kp hkp => ⟨(hkept kp hkp).1, fun hold => ?_, (hkept kp hkp).2⟩⟩
    -- the row of the node is the one it had at first
    have hstored := (hkept kp hkp).2 fun hmem => hlost _ hmem hold
    obtain ⟨row, hrow, hnode⟩ := List.mem_map.1 hold
    obtain ⟨kp', hkp'⟩ := ht.reads row hrow
    have hfirst : Stored G key first kp' := ⟨row, hrow, (nodeId_of_rowToKeyPair hkp').symm, hkp'⟩
    rwa [hstored.unique hs.nodup (hfirst.mono hadded)
      (by rw [nodeId_of_rowToKeyPair hkp', hnode])]
  · intro i j keypairs keypairs' hi hj kp hkp kp' hkp' hid hlost hlost'
    exact (((hreturned i keypairs hi).2.2 kp hkp).2 hlost).unique hs.nodup
      (((hreturned j keypairs' hj).2.2 kp' hkp').2 hlost') hid

/-- Two calls for a node without a row return two keys when both look before either inserts. -/
theorem keys_differ {id : String} (hnone : ∀ row ∈ table, row.nodeId ≠ id) (a b : Draw) :
    ∃ s, Interleave.run (loadOrGenerateKeys G key) ⟨table, fun _ : Bool => .start [id]⟩
        [(false, a), (true, b), (false, a), (true, b), (false, a), (true, b)] = some s ∧
      s.loc false = ⟨[id], .returned [a.keys id], []⟩ ∧
      s.loc true = ⟨[id], .returned [b.keys id], [id]⟩ := by
  have hfilter : table.filter (fun row => row.nodeId = id) = [] := by
    simpa using hnone
  have hany : table.any (·.nodeId = id) = false := by
    simpa using hnone
  have hselect : ∀ d, loadOrGenerateKeys G key (.start [id]) table d =
      some (table, ⟨[id], .generating [id] [] [], []⟩) := by
    intro d
    simp [loadOrGenerateKeys, LoadCall.start, hfilter]
  have hgenerate : loadOrGenerateKeys G key ⟨[id], .generating [id] [] [], []⟩ table a =
      some (table ++ [a.row G key id], ⟨[id], .generating [] [] [a.keys id], []⟩) := by
    simp [loadOrGenerateKeys, Table.insertNew, hany]
  have hlose : loadOrGenerateKeys G key ⟨[id], .generating [id] [] [], []⟩
      (table ++ [a.row G key id]) b =
      some (table ++ [a.row G key id], ⟨[id], .generating [] [] [b.keys id], [id]⟩) := by
    simp [loadOrGenerateKeys, Table.insertNew, Draw.row, keyPairToRow, Draw.keys]
  have hreturn : ∀ t kp lost d, loadOrGenerateKeys G key ⟨[id], .generating [] [] kp, lost⟩ t d =
      some (t, ⟨[id], .returned kp, lost⟩) := fun _ _ _ _ => rfl
  exact ⟨_, Interleave.run_cons.2 ⟨_, Interleave.step_of_prog (hselect a),
    Interleave.run_cons.2 ⟨_, Interleave.step_of_prog (hselect b),
    Interleave.run_cons.2 ⟨_, Interleave.step_of_prog hgenerate,
    Interleave.run_cons.2 ⟨_, Interleave.step_of_prog hlose,
    Interleave.run_cons.2 ⟨_, Interleave.step_of_prog (hreturn _ _ _ a),
    Interleave.run_cons.2 ⟨_, Interleave.step_of_prog (hreturn _ _ _ b), rfl⟩⟩⟩⟩⟩⟩, rfl, rfl⟩

end

/-! ## A run -/

/-- A cipher that leaves the plaintext and takes the tag from the key. -/
def sampleGcm : Gcm where
  encrypt key _ m := (m, ⟨(key ++ List.replicate 16 0).take 16, by simp⟩)
  decrypt key _ tag c := if tag = (key ++ List.replicate 16 0).take 16 then some c else none

/-- The cipher of the sample opens what it seals. -/
theorem sampleGcm_opens : sampleGcm.Opens := fun _ _ _ => if_pos rfl

/-- Keys made of one byte. -/
def sampleDraw (b : UInt8) : Draw :=
  ⟨⟨[b], [b]⟩, ⟨[b], [b]⟩, ⟨List.replicate 12 b, rfl⟩, ⟨List.replicate 12 b, rfl⟩⟩

/-- Of two calls on an empty table, the first to insert has the stored key. -/
theorem stored_keys_of_run_two :
    ∃ s, Interleave.run (loadOrGenerateKeys sampleGcm [3]) ⟨[], fun _ : Bool => .start ["node-1"]⟩
        [(false, sampleDraw 1), (true, sampleDraw 2), (false, sampleDraw 1), (true, sampleDraw 2),
          (false, sampleDraw 1), (true, sampleDraw 2)] = some s ∧
      KeyTable sampleGcm [3] s.shared ∧
      Stored sampleGcm [3] s.shared ((sampleDraw 1).keys "node-1") := by
  obtain ⟨s, hrun, hfalse, -⟩ :=
    keys_differ (G := sampleGcm) (List.forall_mem_nil _) (sampleDraw 1) (sampleDraw 2)
  obtain ⟨-, htable, -, hreturned, -⟩ :=
    stored_keys_of_run sampleGcm_opens ⟨by simp, List.forall_mem_nil _⟩ hrun
  obtain ⟨-, hkp⟩ := hreturned false [(sampleDraw 1).keys "node-1"] (by rw [hfalse])
  refine ⟨s, hrun, htable, (hkp _ (List.mem_singleton_self _)).2.2 ?_⟩
  rw [hfalse]
  exact List.not_mem_nil

end ShadePay.Mpc
