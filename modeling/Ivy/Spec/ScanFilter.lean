import Ivy.Native.WifiScan
import Mathlib.Data.List.Forall2

/-!
# What a scan returns

The item of a record is written at the record's own place, and a record is left out when the
requested name is the beginning of its own. So a scan for a name returns what was asked for only
if nothing belongs to the request and everything is left out; a scan for all returns all.
-/

namespace Ivy.Spec

open Ivy.Native

/-- The record belongs to the request. -/
def belongs (ssid : Option CString) (r : WifiApRecord) : Bool :=
  match ssid with
  | none => true
  | some s => r.ssid.text = s.text

/-- The item is a copy of the record. -/
structure IsCopy (r : WifiApRecord) (item : ApIf) : Prop where
  channel : item.channel = r.primary
  rssi : item.rssi = r.rssi
  security : item.security = r.authmode
  ssid : CString.cells item.ssid = r.ssid.text
  sLen : item.sLen.toNat = r.ssid.strlen
  bssid : item.bssid = r.bssid

/-- The scan has succeeded, and the first `num` items are the records that belong to the
    request, in their order. -/
def ScanExact (ssid : Option CString) (scan : EspScan) (result : ScanResult) : Prop :=
  result.ret = .ok ∧
  result.num = (scan.records.filter (belongs ssid)).length ∧
  ∃ apItems, result.apAry = some apItems ∧
    List.Forall₂ IsCopy (scan.records.filter (belongs ssid)) (apItems.take result.num)

/-- All calls to the driver and all allocations succeed. -/
structure AllSucceed (scan : EspScan) : Prop where
  scanStart : scan.scanStart = true
  getApNum : scan.getApNum = true
  mallocResults : scan.mallocResults = true
  getApRecords : scan.getApRecords = true
  mallocItems : scan.mallocItems = true

/-! ## The loop -/

section

variable {ssid : Option CString} {s : CString}

/-- The item at the place of a record after the loop. -/
def scanItem (ssid : Option CString) (r : WifiApRecord) : ApIf :=
  if skipped ssid r then .zero else copyRecord r .zero

/-- The filter leaves out the names that begin with the wanted one. -/
theorem skipped_iff_begins (r : WifiApRecord) :
    skipped (some s) r = true ↔ s.text <+: r.ssid.text := by
  simp [skipped, CString.strncmp_eq_zero_iff]

/-- The loop from a record on, with the items before it done and zeros behind. -/
theorem scanLoop_eq (ssid : Option CString) (records : List WifiApRecord) (total : Nat)
    (done : List ApIf) :
    scanLoop ssid records done.length total (done ++ .replicate records.length .zero) =
      (total + records.countP (!skipped ssid ·), done ++ records.map (scanItem ssid)) := by
  induction records generalizing total done with
  | nil => simp [scanLoop]
  | cons r records ih =>
    -- the item of this record joins the items that are done
    have hnext := fun total => ih total (done ++ [scanItem ssid r])
    simp only [List.length_append, List.length_singleton, List.append_assoc,
      List.singleton_append] at hnext
    by_cases hskip : skipped ssid r = true
    · have hitem : scanItem ssid r = .zero := if_pos hskip
      rw [hitem] at hnext
      simp [scanLoop, hskip, List.replicate_succ, hnext, hitem]
    · have hitem : scanItem ssid r = copyRecord r .zero := if_neg hskip
      have hmodify : (done ++ ApIf.zero :: .replicate records.length .zero).modify done.length
          (copyRecord r) = done ++ scanItem ssid r :: .replicate records.length .zero := by
        simp [hitem, List.modify_eq_take_cons_drop]
      simp [scanLoop, hskip, List.replicate_succ, hmodify, hnext, Nat.add_assoc, Nat.add_comm]

/-- The result of a scan in which all calls succeed. -/
theorem tklWifiScanAp_eq {scan : EspScan} (hscan : AllSucceed scan) :
    tklWifiScanAp ssid scan =
      ⟨.ok, scan.records.countP (!skipped ssid ·),
        some (scan.records.map (scanItem ssid))⟩ := by
  have hloop := scanLoop_eq ssid scan.records 0 []
  simp only [List.length_nil, List.nil_append, Nat.zero_add] at hloop
  simp [tklWifiScanAp, tklWifiAllApScan, hscan.scanStart, hscan.getApNum,
    hscan.mallocResults, hscan.getApRecords, hscan.mallocItems, hloop]

end

/-! ## Copies -/

/-- A name is terminated. -/
theorem strlen_lt (r : WifiApRecord) : r.ssid.strlen < 33 := by
  have hlt := CString.length_cells_lt r.ssid.terminated
  rwa [r.length_ssid] at hlt

/-- A record is copied. -/
theorem isCopy_copyRecord (r : WifiApRecord) : IsCopy r (copyRecord r .zero) := by
  have hlen := strlen_lt r
  constructor <;> try rfl
  · -- the text is followed by what is left of the zeros
    have hzeros : (List.replicate 33 (0 : UInt8)).drop r.ssid.strlen =
        0 :: .replicate (33 - r.ssid.strlen - 1) 0 := by
      rw [List.drop_replicate, ← List.replicate_succ]
      congr 1
      omega
    show CString.cells (r.ssid.mem.take (CString.cells r.ssid.mem).length ++
      (List.replicate 33 0).drop r.ssid.strlen) = _
    rw [hzeros, CString.take_length_cells]
    exact CString.cells_append_cons_zero (fun a ha => CString.ne_zero_of_mem_cells ha) _
  · show r.ssid.strlen.toUInt8.toNat = _
    rw [Nat.toUInt8, UInt8.toNat_ofNat']
    omega

section

variable {s : CString} {scan : EspScan}

/-- No item is a copy of a record with the name asked for, unless that is empty. -/
theorem not_isCopy_scanItem {r r' : WifiApRecord} (hname : r'.ssid.text = s.text)
    (hs : s.text ≠ []) : ¬ IsCopy r' (scanItem (some s) r) := by
  intro hcopy
  have htext := hcopy.ssid.trans hname
  unfold scanItem at htext
  split at htext
  · -- an item of zeros has the empty name
    exact hs htext.symm
  · -- an item that was written is not left out, but its name has the request as beginning
    next hskip =>
      rw [(isCopy_copyRecord r).ssid] at htext
      exact hskip ((skipped_iff_begins r).mpr (htext ▸ List.prefix_rfl))

/-- A scan for a name can only be exact if every record is left out. -/
theorem all_left_out (h : ScanExact (some s) scan
      ⟨.ok, scan.records.countP (!skipped (some s) ·),
        some (scan.records.map (scanItem (some s)))⟩) :
    scan.records.countP (!skipped (some s) ·) = 0 := by
  obtain ⟨-, hnum, items, hitems, hcopies⟩ := h
  cases hitems
  dsimp only at hnum hcopies
  by_contra hne
  obtain ⟨r', hr', hkept⟩ := List.countP_pos_iff.mp (Nat.pos_of_ne_zero hne)
  -- a record that is not left out makes the name asked for non-empty
  have hs : s.text ≠ [] := by
    intro hnil
    have hskip : skipped (some s) r' = true := (skipped_iff_begins r').mpr (by simp [hnil])
    simp [hskip] at hkept
  -- so the first item would have to be a copy of a record that was asked for
  cases hwanted : scan.records.filter (belongs (some s)) with
  | nil => exact hne (by simpa [hwanted] using hnum)
  | cons w wanted =>
    have hw : w ∈ scan.records.filter (belongs (some s)) := hwanted ▸ List.mem_cons_self
    have hname : w.ssid.text = s.text := by simpa [belongs] using (List.mem_filter.mp hw).2
    rw [hwanted] at hcopies
    obtain ⟨item, items, hcopy, -, htake⟩ := List.forall₂_cons_left_iff.mp hcopies
    have hmem : item ∈ scan.records.map (scanItem (some s)) :=
      List.mem_of_mem_take (htake ▸ List.mem_cons_self)
    obtain ⟨r, -, rfl⟩ := List.mem_map.mp hmem
    exact not_isCopy_scanItem hname hs hcopy

end

/-- For every list of records and every request: a scan whose calls succeed returns exactly the
    records that belong to the request, if and only if it is a scan for all or the name asked
    for is a proper beginning of the name of every record. -/
theorem scan_exact_iff (ssid : Option CString) (scan : EspScan) (hscan : AllSucceed scan) :
    ScanExact ssid scan (tklWifiScanAp ssid scan) ↔
      ∀ s, ssid = some s → ∀ r ∈ scan.records, s.text <+: r.ssid.text ∧ r.ssid.text ≠ s.text := by
  rw [tklWifiScanAp_eq hscan]
  constructor
  · rintro h s rfl r hr
    have hnone := all_left_out h
    -- every record is left out, so none of them may have been wanted
    have hskip : skipped (some s) r = true := by
      simpa using List.countP_eq_zero.mp hnone r hr
    refine ⟨(skipped_iff_begins r).mp hskip, fun hname => ?_⟩
    have hwanted : scan.records.filter (belongs (some s)) = [] := by
      rw [← List.length_eq_zero_iff, ← h.2.1, hnone]
    have hmem : r ∈ scan.records.filter (belongs (some s)) :=
      List.mem_filter.mpr ⟨hr, by simpa [belongs] using hname⟩
    rw [hwanted] at hmem
    exact List.not_mem_nil hmem
  · intro h
    cases ssid with
    | none =>
      -- without a name all records are wanted
      have hall : scan.records.filter (belongs none) = scan.records :=
        List.filter_eq_self.mpr fun _ _ => rfl
      refine ⟨rfl, ?_, _, rfl, ?_⟩
      · simp [hall, skipped]
      · have hcopies : List.Forall₂ IsCopy scan.records (scan.records.map (scanItem none)) :=
          List.forall₂_map_right_iff.mpr
            (List.forall₂_same.mpr fun r _ => isCopy_copyRecord r)
        have hnum : scan.records.countP (!skipped none ·) = scan.records.length := by
          simp [skipped]
        rw [hall, hnum, List.take_of_length_le (by simp)]
        exact hcopies
    | some s =>
      have hnone : scan.records.countP (!skipped (some s) ·) = 0 :=
        List.countP_eq_zero.mpr fun r hr => by
          simp [(skipped_iff_begins r).mpr (h s rfl r hr).1]
      have hwanted : scan.records.filter (belongs (some s)) = [] :=
        List.filter_eq_nil_iff.mpr fun r hr => by simpa [belongs] using (h s rfl r hr).2
      exact ⟨rfl, by simp [hnone, hwanted], _, rfl, by simp [hnone, hwanted]⟩

/-- A record with a name of at most two bytes on channel 6. -/
def scanRecord (first : UInt8) (second : UInt8) : WifiApRecord where
  bssid := .replicate 6 0x10
  ssid := ⟨first :: second :: .replicate 31 0, by simp⟩
  primary := 6
  rssi := -40
  authmode := 3
  length_ssid := rfl

/-- A scan that finds the given records. -/
def scanOf (records : List WifiApRecord) (h : records.length < 2 ^ 16) : EspScan :=
  ⟨true, true, true, true, true, records, h⟩

/-- All records, and with a filter records of which each begins with the name asked for and goes on
    behind it. -/
theorem scan_exact_iff_two :
    ScanExact none (scanOf [scanRecord 0x61 0, scanRecord 0x62 0] (by decide))
      (tklWifiScanAp none (scanOf [scanRecord 0x61 0, scanRecord 0x62 0] (by decide))) ∧
    ScanExact (some ⟨[0x61, 0], by simp⟩)
      (scanOf [scanRecord 0x61 0x62, scanRecord 0x61 0x63] (by decide))
      (tklWifiScanAp (some ⟨[0x61, 0], by simp⟩)
        (scanOf [scanRecord 0x61 0x62, scanRecord 0x61 0x63] (by decide))) := by
  constructor
  · exact (scan_exact_iff none _ ⟨rfl, rfl, rfl, rfl, rfl⟩).mpr nofun
  · refine (scan_exact_iff _ _ ⟨rfl, rfl, rfl, rfl, rfl⟩).mpr ?_
    rintro s hs
    cases hs
    decide

/-- The access point asked for is left out, and the other one is returned in its place. -/
theorem not_scan_exact :
    ∃ ssid scan, AllSucceed scan ∧ ¬ ScanExact ssid scan (tklWifiScanAp ssid scan) ∧
      scan.records.filter (belongs ssid) = [scanRecord 0x61 0] ∧
      tklWifiScanAp ssid scan =
        ⟨.ok, 1, some [.zero, copyRecord (scanRecord 0x62 0) .zero]⟩ := by
  refine ⟨some ⟨[0x61, 0], by simp⟩, scanOf [scanRecord 0x61 0, scanRecord 0x62 0] (by decide),
    ⟨rfl, rfl, rfl, rfl, rfl⟩, ?_, by decide, by decide⟩
  rintro ⟨-, -, items, hitems, hcopies⟩
  cases hitems
  obtain ⟨item, rest, hcopy, -, htake⟩ := List.forall₂_cons_left_iff.mp hcopies
  cases htake
  exact absurd hcopy.channel (by decide)

end Ivy.Spec
