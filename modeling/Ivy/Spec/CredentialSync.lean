import Ivy.ForStd.Transition
import Ivy.Native.Credentials

/-!
# The two copies of the credentials

`History` follows a device through boots, registrations and erasures and remembers which
pairs were issued. `register_in_cloud` passes the key first and `get_credentials` the
uuid, so whichever order the storing helpers take, one of the two writes an exchanged
pair. `Undisturbed` says when that does no harm, for each order.
-/

namespace Ivy.Spec

open Ivy.Native Ivy.Lts

/-! ## Histories -/

/-- What can happen to the credentials of a device. -/
inductive CredentialOp
  | get
  /-- `register_in_cloud` succeeds -/
  | register (r : Registration)
  | eraseNvs
  | eraseSd
  deriving DecidableEq, Repr

structure History where
  device : Iot
  /-- the pairs issued by the server or provisioned at first -/
  issued : List Credentials
  /-- the registration that has written what is on the SD card, if one has -/
  registered : Option Registration
  deriving DecidableEq, Repr

/-- A device as provisioned: the pairs it holds count as issued. -/
def History.boot (d : Iot) : History :=
  ⟨d, [d.nvs, d.sd].filter hasCredentials, none⟩

def History.step (order : ArgOrder) (h : History) : CredentialOp → History
  | .get =>
    { h with
      device := (h.device.getCredentials order).2
      -- the SD card is rewritten when NVS holds another pair
      registered :=
        if hasCredentials h.device.nvs ∧ h.device.sd ≠ h.device.nvs then none
        else h.registered }
  | .register r =>
    { device := (h.device.registerInCloud order (some r)).2
      issued := ⟨r.uuid, r.key⟩ :: h.issued
      registered := some r }
  | .eraseNvs => { h with device := { h.device with nvs := .empty } }
  | .eraseSd => { h with device := { h.device with sd := .empty }, registered := none }

/-- If `get_credentials` returns true, the pair it has found was issued, both places hold
    it, and a call right after it writes to neither. -/
def Consistent (order : ArgOrder) (h : History) : CredentialOp → Prop
  | .get =>
    let (found, d) := h.device.getCredentials order
    found = true → d.current ∈ h.issued ∧ d.nvs = d.current ∧ d.sd = d.current ∧
      (d.getCredentials order).2.writes = d.writes
  | _ => True

/-- With the uuid first: `get_credentials` does not run without a pair in NVS while the
    SD card holds what a registration wrote (unless the exchanged pair is one the server
    has issued as well). With the key first: it does not copy a pair (unless the two
    components are equal). -/
def Undisturbed (order : ArgOrder) (h : History) : CredentialOp → Prop
  | .get =>
    match order with
    | .uuidFirst =>
      hasCredentials h.device.nvs = false → ∀ r ∈ h.registered,
        hasCredentials ⟨r.key, r.uuid⟩ = true → ⟨r.key, r.uuid⟩ ∈ h.issued
    | .keyFirst =>
      if hasCredentials h.device.nvs then
        h.device.sd ≠ h.device.nvs → h.device.nvs.uuid = h.device.nvs.key
      else hasCredentials h.device.sd = true → h.device.sd.uuid = h.device.sd.key
  | _ => True

/-! ## One call -/

section

variable {order : ArgOrder} {d : Iot}

/-- Without credentials nothing is copied. -/
theorem getCredentials_none (hnvs : hasCredentials d.nvs = false)
    (hsd : hasCredentials d.sd = false) : d.getCredentials order = (false, d) := by
  simp [Iot.getCredentials, hnvs, hsd]

/-- Credentials on the card only are copied to the NVS. -/
theorem getCredentials_sd (hnvs : hasCredentials d.nvs = false)
    (hsd : hasCredentials d.sd = true) :
    d.getCredentials order =
      (true, { d with current := d.sd }.nvsStoreCredentials order d.sd.uuid d.sd.key) := by
  simp [Iot.getCredentials, hnvs, hsd]

/-- Equal credentials are not copied. -/
theorem getCredentials_same (hnvs : hasCredentials d.nvs = true) (hsame : d.sd = d.nvs) :
    d.getCredentials order = (true, { d with current := d.nvs }) := by
  simp [Iot.getCredentials, hnvs, hsame]

/-- Once both places hold one pair, a call writes to neither. -/
theorem getCredentials_writes (hnvs : hasCredentials d.nvs = true) (hsame : d.sd = d.nvs) :
    (d.getCredentials order).2.writes = d.writes := by
  rw [getCredentials_same hnvs hsame]

/-- Others than in the NVS are overwritten on the card. -/
theorem getCredentials_nvs (hnvs : hasCredentials d.nvs = true) (hdiff : d.sd ≠ d.nvs) :
    d.getCredentials order =
      (true, { d with current := d.nvs }.sdStoreCredentials order d.nvs.uuid d.nvs.key) := by
  cases hsd : hasCredentials d.sd with
  | false => simp [Iot.getCredentials, hnvs, hsd]
  | true =>
    -- two pairs that differ do so in one of their components
    have hne : d.nvs.uuid ≠ d.sd.uuid ∨ d.nvs.key ≠ d.sd.key := by
      rw [← not_and_or]
      exact fun hsame => hdiff (Credentials.ext hsame.1.symm hsame.2.symm)
    simp [Iot.getCredentials, hnvs, hsd, hne]

/-- A copy made by `get_credentials` is the pair it copies, unless the key comes first
    and the components differ. -/
theorem stored_eq_iff (c : Credentials) :
    order.stored c.uuid c.key = c ↔ order = .keyFirst → c.uuid = c.key := by
  cases order with
  | uuidFirst => exact ⟨fun _ => nofun, fun _ => rfl⟩
  -- stored in the right order there is nothing to be disturbed
  | keyFirst =>
    simp only [ArgOrder.stored, Credentials.ext_iff, true_imp_iff]
    exact ⟨fun h => h.2, fun h => ⟨h.symm, h⟩⟩

/-- `get_uid_authkey` does nothing, or it registers once. -/
theorem getUidAuthkey_eq (answers : List (Option Registration)) :
    d.getUidAuthkey order answers = d ∨
      ∃ r, some r ∈ answers ∧
        d.getUidAuthkey order answers = (d.registerInCloud order (some r)).2 := by
  have hattempt : ∀ answers, Iot.getUidAuthkey.attempt order d answers = d ∨
      ∃ r, some r ∈ answers ∧
        Iot.getUidAuthkey.attempt order d answers = (d.registerInCloud order (some r)).2 := by
    intro answers
    induction answers with
    | nil => exact .inl rfl
    | cons answer answers ih =>
      cases answer with
      | some r => exact .inr ⟨r, List.mem_cons_self, rfl⟩
      | none =>
        -- a failed attempt changes nothing
        obtain h | ⟨r, hmem, h⟩ := ih
        · exact .inl h
        · exact .inr ⟨r, List.mem_cons_of_mem _ hmem, h⟩
  unfold Iot.getUidAuthkey
  split
  · obtain h | ⟨r, hmem, h⟩ := hattempt (answers.take 3)
    · exact .inl h
    · exact .inr ⟨r, List.mem_of_mem_take hmem, h⟩
  · exact .inl rfl

end

/-! ## Whole histories -/

/-- What NVS holds was issued; so was what is on the SD card, unless a registration has
    written it. -/
structure Traced (order : ArgOrder) (h : History) : Prop where
  nvs : hasCredentials h.device.nvs = true → h.device.nvs ∈ h.issued
  sd : hasCredentials h.device.sd = true → h.registered = none → h.device.sd ∈ h.issued
  registered : ∀ r ∈ h.registered,
    h.device.sd = order.stored r.key r.uuid ∧ ⟨r.uuid, r.key⟩ ∈ h.issued

section

variable {order : ArgOrder} {h : History}

/-- What is stored when the device boots. -/
theorem traced_boot (d : Iot) : Traced order (.boot d) where
  nvs hnvs := List.mem_filter.mpr ⟨List.mem_cons_self, hnvs⟩
  sd hsd _ := List.mem_filter.mpr ⟨List.mem_cons_of_mem _ List.mem_cons_self, hsd⟩
  registered := nofun

/-- A pair in NVS is the one found, and the SD card is rewritten if it holds another; a
    pair on the SD card alone must have been issued. Either way what is written has to be
    the pair itself. -/
theorem consistent_get_iff (hs : Traced order h) :
    Consistent order h .get ↔
      if hasCredentials h.device.nvs then
        h.device.sd ≠ h.device.nvs →
          order.stored h.device.nvs.uuid h.device.nvs.key = h.device.nvs
      else hasCredentials h.device.sd = true → h.device.sd ∈ h.issued ∧
        order.stored h.device.sd.uuid h.device.sd.key = h.device.sd := by
  obtain ⟨d, issued, registered⟩ := h
  have hnvs := hs.nvs
  unfold Consistent
  dsimp only at hnvs ⊢
  split
  · rename_i hhas
    by_cases hsame : d.sd = d.nvs
    · -- both places agree: nothing is written
      rw [getCredentials_same hhas hsame]
      exact iff_of_true
        (fun _ => ⟨hnvs hhas, rfl, hsame, getCredentials_writes hhas hsame⟩)
        fun hdiff => absurd hsame hdiff
    · -- the SD card lacks the pair or holds another one
      rw [getCredentials_nvs hhas hsame]
      constructor
      · exact fun hcons _ => (hcons rfl).2.2.1
      · intro hstored _
        exact ⟨hnvs hhas, rfl, hstored hsame, getCredentials_writes hhas (hstored hsame)⟩
  · rename_i hnot
    rw [Bool.not_eq_true] at hnot
    cases hhas : hasCredentials d.sd with
    | false =>
      rw [getCredentials_none hnot hhas]
      exact iff_of_true nofun nofun
    | true =>
      -- the pair comes from the SD card and goes to NVS
      rw [getCredentials_sd hnot hhas]
      constructor
      · exact fun hcons _ => ⟨(hcons rfl).1, (hcons rfl).2.1⟩
      · intro hstored _
        obtain ⟨hmem, heq⟩ := hstored rfl
        have hhas' : hasCredentials (order.stored d.sd.uuid d.sd.key) = true := by
          rw [heq, hhas]
        exact ⟨hmem, heq, rfl, getCredentials_writes hhas' heq.symm⟩

/-- With the key first a registration writes the pair it was issued. -/
theorem Traced.sd_issued (hs : Traced .keyFirst h) (hsd : hasCredentials h.device.sd = true) :
    h.device.sd ∈ h.issued := by
  cases hreg : h.registered with
  | none => exact hs.sd hsd hreg
  | some r =>
    obtain ⟨hstored, hmem⟩ := hs.registered r hreg
    rw [hstored]; exact hmem

/-- The copies are consistent exactly if no exchanged pair comes between them. -/
theorem consistent_iff_undisturbed (hs : Traced order h) (op : CredentialOp) :
    Consistent order h op ↔ Undisturbed order h op := by
  cases op with
  | get =>
    rw [consistent_get_iff hs]
    unfold Undisturbed
    simp only [stored_eq_iff]
    cases order with
    | uuidFirst =>
      split
      · rename_i hhas
        exact iff_of_true (fun _ => nofun) (fun hnot => nomatch hhas.symm.trans hnot)
      · rename_i hnot
        rw [Bool.not_eq_true] at hnot
        constructor
        · intro hissued _ r hr hhas
          obtain ⟨hstored, -⟩ := hs.registered r hr
          rw [hstored] at hissued
          exact (hissued hhas).1
        · intro hclear hhas
          refine ⟨?_, nofun⟩
          cases hreg : h.registered with
          | none => exact hs.sd hhas hreg
          | some r =>
            -- the card holds the exchanged pair
            obtain ⟨hstored, -⟩ := hs.registered r hreg
            rw [hstored] at hhas ⊢
            exact hclear hnot r hreg hhas
    | keyFirst =>
      split
      · exact ⟨fun h hdiff => h hdiff rfl, fun h hdiff _ => h hdiff⟩
      · exact ⟨fun h hhas => (h hhas).2 rfl, fun h hhas => ⟨hs.sd_issued hhas, fun _ => h hhas⟩⟩
  | _ => exact Iff.rfl

/-- Reading the credentials keeps track of them. -/
theorem traced_get (hs : Traced order h) (hop : Undisturbed order h .get) :
    Traced order (h.step order .get) := by
  -- the copy is what was issued
  have hcopy := (consistent_get_iff hs).mp ((consistent_iff_undisturbed hs .get).mpr hop)
  obtain ⟨d, issued, registered⟩ := h
  obtain ⟨hnvs, hsd, hreg⟩ := hs
  unfold History.step
  dsimp only at hcopy hnvs hsd hreg ⊢
  split at hcopy
  · rename_i hhas
    by_cases hsame : d.sd = d.nvs
    · rw [getCredentials_same hhas hsame, if_neg fun h => h.2 hsame]
      exact ⟨hnvs, hsd, hreg⟩
    · -- the SD card now holds what NVS holds
      rw [getCredentials_nvs hhas hsame, if_pos ⟨hhas, hsame⟩]
      refine ⟨hnvs, fun _ _ => ?_, nofun⟩
      show order.stored d.nvs.uuid d.nvs.key ∈ issued
      rw [hcopy hsame]; exact hnvs hhas
  · rename_i hnot
    rw [if_neg fun h => hnot h.1]
    rw [Bool.not_eq_true] at hnot
    cases hhas : hasCredentials d.sd with
    | false =>
      rw [getCredentials_none hnot hhas]
      exact ⟨hnvs, hsd, hreg⟩
    | true =>
      rw [getCredentials_sd hnot hhas]
      refine ⟨fun _ => ?_, hsd, hreg⟩
      obtain ⟨hmem, heq⟩ := hcopy hhas
      show order.stored d.sd.uuid d.sd.key ∈ issued
      rw [heq]; exact hmem

/-- So does every call that is not disturbed. -/
theorem Undisturbed.traced {op : CredentialOp} (hop : Undisturbed order h op)
    (hs : Traced order h) : Traced order (h.step order op) := by
  cases op with
  | get => exact traced_get hs hop
  | register r =>
    refine ⟨fun hnvs => List.mem_cons_of_mem _ (hs.nvs hnvs), nofun, fun r' hr' => ?_⟩
    cases hr'
    exact ⟨rfl, List.mem_cons_self⟩
  | eraseNvs => exact ⟨nofun, hs.sd, hs.registered⟩
  | eraseSd => exact ⟨hs.nvs, nofun, nofun⟩

/-- Along every sequence of calls, registrations and erasures, on every device: each
    `get_credentials` that returns true finds an issued pair and leaves both places with
    it, exactly if none of the calls is disturbed. -/
theorem credentials_consistent_iff (order : ArgOrder) (d : Iot) (ops : List CredentialOp) :
    Always (History.step order) (Consistent order) (.boot d) ops ↔
      Always (History.step order) (Undisturbed order) (.boot d) ops :=
  always_congr (I := Traced order) (fun _ op hs => consistent_iff_undisturbed hs op)
    (fun _ _ hs hop => hop.traced hs) (traced_boot d)

/-- A new device, registered and then booted: with the uuid first it takes the key for its
    uuid. And with the key first, a device with a pair in NVS alone ends with two
    different pairs. -/
theorem not_credentials_consistent :
    (∃ h, [.register ⟨"u", "k", 0⟩, .get].foldl (History.step .uuidFirst)
        (.boot ⟨.empty, .empty, .empty, none, []⟩) = h ∧
      h.device.current = ⟨"k", "u"⟩ ∧ h.issued = [⟨"u", "k"⟩]) ∧
    ¬ Always (History.step .uuidFirst) (Consistent .uuidFirst)
        (.boot ⟨.empty, .empty, .empty, none, []⟩) [.register ⟨"u", "k", 0⟩, .get] ∧
    ¬ Always (History.step .keyFirst) (Consistent .keyFirst)
        (.boot ⟨⟨"u", "k"⟩, .empty, .empty, none, []⟩) [.get] := by
  refine ⟨⟨_, rfl, by decide, by decide⟩, ?_, ?_⟩
  · intro h
    exact absurd (h.2.1 (by decide)).1 (by decide)
  · intro h
    exact absurd (h.1 (by decide)).2.2.1 (by decide)

end

end Ivy.Spec
