import Ivy.Spec.HuffmanExpand

/-!
# What the decoder finds in the expanded Huffman tables

`JPEGMakeHuffTables` goes over up to eight tables. `items` are the codes of all tables in the order
in which they are entered; that different codes have different entries gives all lookups at once.
The AC tables lie behind the DC tables in memory, and there is only room for two DC tables: DC
tables 2 and 3 come to lie in `usHuffAC`, before the AC tables are written over them.
-/

namespace Ivy.Spec

open Ivy.Native Ivy.Native.HuffTables Ivy.Canonical

/-! ## The loops over the tables -/

/-- The codes of the tables in use, from table `i` on for `n` tables. -/
def items (h : HuffTables) (first n i : Nat) : List (Nat × Codeword UInt8) :=
  ((List.range' i n).filter fun t => h.used (t + first)).flatMap fun t =>
    (tableCodes h.pHuffVals (t + first)).map fun c => (t, c)

/-- Both have the same tables before they are expanded. -/
structure SameTables (h h' : HuffTables) : Prop where
  used : h'.ucHuffTableUsed = h.ucHuffTableUsed
  mode : h'.ucMode = h.ucMode
  vals : h'.pHuffVals = h.pHuffVals

/-- A record has its own tables. -/
theorem SameTables.refl (h : HuffTables) : SameTables h h := ⟨rfl, rfl, rfl⟩

section

variable {β : Type} {make : Nat → HuffTables → HuffTables × Bool} {first : Nat} {h h' : HuffTables}

/-- The loop over the tables succeeds if every used table does. -/
theorem makeEach_ok_iff (first : Nat) {ok : Nat → Prop}
    (hmake : ∀ t h', SameTables h h' →
      SameTables h (make t h').1 ∧ ((make t h').2 = true ↔ ok t)) (n i : Nat)
    (hsame : SameTables h h') :
    (makeEach make first n i h').2 = true ↔
      ∀ t, i ≤ t → t < i + n → h.used (t + first) = true → ok t := by
  induction n generalizing i h' with
  | zero =>
    rw [makeEach]
    simp only [true_iff]
    omega
  | succ n ih =>
    have hused : h'.used (i + first) = h.used (i + first) := by rw [used, hsame.used, used]
    obtain ⟨hnext, hok⟩ := hmake i h' hsame
    -- table `i`, and the tables behind it
    have hsplit : (∀ t, i ≤ t → t < i + (n + 1) → h.used (t + first) = true → ok t) ↔
        (h.used (i + first) = true → ok i) ∧
          ∀ t, i + 1 ≤ t → t < i + 1 + n → h.used (t + first) = true → ok t := by
      constructor
      · intro hall
        exact ⟨hall i (by omega) (by omega), fun t hlow hhigh => hall t (by omega) (by omega)⟩
      · intro ⟨hfirst, hrest⟩ t hlow hhigh
        by_cases hi : t = i
        · rwa [hi]
        · exact hrest t (by omega) (by omega)
    rw [hsplit, makeEach, hused]
    split
    · generalize make i h' = r at hnext hok
      obtain ⟨h'', ok'⟩ := r
      cases ok' with
      | true =>
        have hi := hok.mp rfl
        simp only [ih (i + 1) hnext]
        exact ⟨fun hrest => ⟨fun _ => hi, hrest⟩, And.right⟩
      | false =>
        -- the loop stops at the first table that fails
        simp only [Bool.false_eq_true, false_iff] at hok ⊢
        exact fun hall => hok (hall.1 (by assumption))
    · rw [ih (i + 1) hsame]
      exact ⟨fun hrest => ⟨fun hi => absurd hi (by assumption), hrest⟩, And.right⟩

/-- A loop over the tables that comes to its end has entered all codes. -/
theorem makeEach_eq (tbl : HuffTables → Nat → β)
    {item : Nat × Codeword UInt8 → (Nat → β) → Option (Nat → β)}
    (hmake : ∀ t h', SameTables h h' → SameTables h (make t h').1 ∧ ((make t h').2 = true →
      enterAll item ((tableCodes h.pHuffVals (t + first)).map fun c => (t, c)) (tbl h') =
        (tbl (make t h').1, true)))
    (n i : Nat) (hsame : SameTables h h') (hok : (makeEach make first n i h').2 = true) :
    SameTables h (makeEach make first n i h').1 ∧
      enterAll item (items h first n i) (tbl h') = (tbl (makeEach make first n i h').1, true) := by
  induction n generalizing i h' with
  | zero => exact ⟨hsame, rfl⟩
  | succ n ih =>
    have hused : h'.used (i + first) = h.used (i + first) := by rw [used, hsame.used, used]
    obtain ⟨hnext, hentered⟩ := hmake i h' hsame
    rw [makeEach] at hok ⊢
    rw [items, List.range'_succ, List.filter_cons, ← hused]
    -- a used table, or the next one
    by_cases hi : h'.used (i + first) = true
    · rw [if_pos hi] at hok ⊢
      rw [if_pos hi, List.flatMap_cons, enterAll_append]
      generalize make i h' = r at hnext hentered hok
      obtain ⟨h'', ok⟩ := r
      cases ok with
      | false => cases hok
      | true =>
        rw [hentered rfl]
        exact ih (i + 1) hnext hok
    · rw [if_neg hi] at hok ⊢
      rw [if_neg hi]
      exact ih (i + 1) hsame hok

end

/-! ## The memory of the tables -/

/-- An element is put together from its bytes. -/
theorem word_of_bytes (v : UInt16) :
    v.toUInt8.toUInt16 ||| (v >>> 8).toUInt8.toUInt16 <<< 8 = v := by
  apply UInt16.toBitVec_inj.mp
  ext i hi
  simp only [UInt16.toBitVec_or, UInt8.toBitVec_toUInt16, UInt16.toBitVec_toUInt8,
    UInt16.toBitVec_shiftLeft, UInt16.toBitVec_shiftRight]
  simp [BitVec.getElem_setWidth, -BitVec.setWidth_setWidth]
  grind

/-- The bytes of an element are those it has been put together from. -/
theorem bytes_of_word (lo hi : UInt8) :
    (lo.toUInt16 ||| hi.toUInt16 <<< 8).toUInt8 = lo ∧
      ((lo.toUInt16 ||| hi.toUInt16 <<< 8) >>> 8).toUInt8 = hi := by
  constructor
  · apply UInt8.toBitVec_inj.mp
    ext i hi
    simp only [UInt16.toBitVec_or, UInt8.toBitVec_toUInt16, UInt16.toBitVec_toUInt8,
      UInt16.toBitVec_shiftLeft]
    simp [-BitVec.setWidth_setWidth]
  · apply UInt8.toBitVec_inj.mp
    ext i hi
    simp only [UInt16.toBitVec_or, UInt8.toBitVec_toUInt16, UInt16.toBitVec_toUInt8,
      UInt16.toBitVec_shiftLeft, UInt16.toBitVec_shiftRight]
    simp [BitVec.getElem_setWidth, -BitVec.setWidth_setWidth]
    grind

section

variable {h h' : HuffTables} {a i : Nat}

/-- What has been written to `usHuffAC` is found there. -/
@[simp] theorem usHuffAC_withHuffAC (h : HuffTables) (table : Nat → UInt16) :
    (h.withHuffAC table).usHuffAC = table := by
  funext i
  have heven : (ucHuffDCSize + 2 * i) % 2 = 0 := by
    simp only [ucHuffDCSize, dcTableSize]
    omega
  rw [usHuffAC, withHuffAC]
  dsimp only
  rw [if_neg (by omega), if_pos heven, if_neg (by omega), if_neg (by omega),
    show (ucHuffDCSize + 2 * i - ucHuffDCSize) / 2 = i by omega,
    show (ucHuffDCSize + 2 * i + 1 - ucHuffDCSize) / 2 = i by omega, word_of_bytes]

/-- A write to `usHuffAC` leaves `ucHuffDC` as it is. -/
theorem withHuffAC_of_lt (h : HuffTables) (table : Nat → UInt16) (ha : a < ucHuffDCSize) :
    (h.withHuffAC table).ucHuffDC a = h.ucHuffDC a := if_pos ha

/-- The same elements have the same bytes. -/
theorem ucHuffDC_of_usHuffAC (ha : ucHuffDCSize ≤ a) (hi : i = (a - ucHuffDCSize) / 2)
    (heq : h'.usHuffAC i = h.usHuffAC i) : h'.ucHuffDC a = h.ucHuffDC a := by
  have hlow := congrArg UInt16.toUInt8 heq
  have hhigh := congrArg (fun v : UInt16 => (v >>> 8).toUInt8) heq
  simp only [usHuffAC, (bytes_of_word _ _).1, (bytes_of_word _ _).2] at hlow hhigh
  -- the low byte or the high byte of the element
  obtain rfl | rfl : a = ucHuffDCSize + 2 * i ∨ a = ucHuffDCSize + 2 * i + 1 := by omega
  · exact hlow
  · exact hhigh

/-- The same bytes are the same elements. -/
theorem usHuffAC_congr (hsame : ∀ a, ucHuffDCSize ≤ a → h'.ucHuffDC a = h.ucHuffDC a) :
    h'.usHuffAC = h.usHuffAC := by
  funext i
  rw [usHuffAC, usHuffAC, hsame _ (by omega), hsame _ (by omega)]

/-- Nothing is entered in a cleared table. -/
theorem usHuffAC_of_zero (hzero : ∀ a, h.ucHuffDC a = 0) : h.usHuffAC i = 0 := by
  rw [usHuffAC, hzero, hzero]
  rfl

end

/-! ## DC and AC tables -/

/-- A DC table is made by entering its codes, -/
theorem makeDc_eq (i : Nat) {h h' : HuffTables} (hsame : SameTables h h') :
    SameTables h (makeDc i h').1 ∧
      enterAll (dcItem h.ucMode) ((tableCodes h.pHuffVals i).map fun c => (i, c)) h'.ucHuffDC =
        ((makeDc i h').1.ucHuffDC, (makeDc i h').2) := by
  refine ⟨⟨hsame.used, hsame.mode, hsame.vals⟩, ?_⟩
  rw [enterAll_map, ← hsame.mode, ← hsame.vals]
  -- 16 lengths are gone through, and a code beyond 12 bits fails
  exact (codesOfTable_eq 12 _ 16 1 ⟨0, _, h'.ucHuffDC⟩).symm

/-- and an AC table likewise, if it is one of the two there is room for. -/
theorem makeAc_eq (bThumbnail : Bool) (i : Nat) {h h' : HuffTables} (hsame : SameTables h h')
    (hi : i < 2) :
    enterAll (acItem bThumbnail) ((tableCodes h.pHuffVals (i + 4)).map fun c => (i, c))
        h'.usHuffAC = ((makeAc bThumbnail i h').1.usHuffAC, (makeAc bThumbnail i h').2) := by
  -- the test that `JPEGMakeHuffTables` makes for each AC table
  have hroom : ¬ i * huff11Size ≥ usHuffACSize := by
    simp only [huff11Size, usHuffACSize]
    omega
  rw [enterAll_map, ← hsame.vals, makeAc, if_neg hroom]
  dsimp only
  rw [usHuffAC_withHuffAC]
  exact (codesOfTable_eq 16 _ 16 1 ⟨0, _, h'.usHuffAC⟩).symm

/-- Making an AC table leaves what is made of. -/
theorem makeAc_same (bThumbnail : Bool) (i : Nat) {h h' : HuffTables} (hsame : SameTables h h') :
    SameTables h (makeAc bThumbnail i h').1 := by
  rw [makeAc]
  split
  · exact hsame
  · exact ⟨hsame.used, hsame.mode, hsame.vals⟩

/-- A third AC table is refused. -/
theorem makeAc_of_ge (bThumbnail : Bool) {i : Nat} (h : HuffTables) (hi : 2 ≤ i) :
    (makeAc bThumbnail i h).2 = false := by
  have hroom : i * huff11Size ≥ usHuffACSize := by
    simp only [huff11Size, usHuffACSize]
    omega
  rw [makeAc, if_pos hroom]

/-- The codes that fit into a DC table. -/
def DcCode (c : Codeword UInt8) : Prop := c.len ≤ 12 ∧ (c.len ≤ 6 ∨ c.code / 2 ^ (c.len - 5) = 31)

/-- The codes that fit into an AC table. -/
def AcCode (c : Codeword UInt8) : Prop := c.len ≤ 10 ∨ c.code / 2 ^ (c.len - 6) = 63

/-- A DC table is made if each of its codes can be looked up, -/
theorem makeDc_ok_iff (i : Nat) {h h' : HuffTables} (hsame : SameTables h h') :
    (makeDc i h').2 = true ↔ ∀ c ∈ tableCodes h.pHuffVals i, DcCode c := by
  have hentered := congrArg Prod.snd (makeDc_eq i hsame).2
  have hitem : ∀ c m, (dcItem h.ucMode (i, c) m).isSome ↔ DcCode c := by
    intro c m
    rw [dcItem_isSome_iff, DcCode]
    simp only
    omega
  rw [← hentered, enterAll_map, enterAll_ok_iff hitem]

/-- and an AC table, if it is one of the two. -/
theorem makeAc_ok_iff (bThumbnail : Bool) (i : Nat) {h h' : HuffTables} (hsame : SameTables h h') :
    (makeAc bThumbnail i h').2 = true ↔
      i < 2 ∧ ∀ c ∈ tableCodes h.pHuffVals (i + 4), AcCode c := by
  by_cases hi : i < 2
  · have hentered := congrArg Prod.snd (makeAc_eq bThumbnail i hsame hi)
    -- no code is longer than sixteen bits
    have hlen : ∀ c ∈ tableCodes h.pHuffVals (i + 4), c.len ≤ 16 := fun c hc =>
      (codewords_bounds (W := 16) (by rw [length_tableGroups]) hc).1.2
    have hitem : ∀ c m, (acItem bThumbnail (i, c) m).isSome ↔ c.len ≤ 16 ∧ AcCode c := by
      intro c m
      rw [acItem_isSome_iff, AcCode]
      simp only
      omega
    rw [← hentered, enterAll_map, enterAll_ok_iff hitem]
    simp only [hi, true_and]
    exact forall₂_congr fun c hc => and_iff_right (hlen c hc)
  · simp [makeAc_of_ge bThumbnail h' (Nat.not_lt.mp hi), hi]

/-- The loop over the DC tables. -/
theorem dcLoop_eq {h : HuffTables} (hok : (makeEach makeDc 0 4 0 h).2 = true) :
    SameTables h (makeEach makeDc 0 4 0 h).1 ∧
      enterAll (dcItem h.ucMode) (items h 0 4 0) h.ucHuffDC =
        ((makeEach makeDc 0 4 0 h).1.ucHuffDC, true) := by
  refine makeEach_eq HuffTables.ucHuffDC (fun t h' hsame => ?_) 4 0 (SameTables.refl h) hok
  obtain ⟨hnext, hentered⟩ := makeDc_eq t hsame
  refine ⟨hnext, fun hdone => ?_⟩
  -- the DC tables are the first four
  rw [Nat.add_zero, hentered, hdone]

/-- The loop over the AC tables. -/
theorem acLoop_eq {bThumbnail : Bool} {h h' : HuffTables} (hsame : SameTables h h')
    (hok : (makeEach (makeAc bThumbnail) 4 4 0 h').2 = true) :
    enterAll (acItem bThumbnail) (items h 4 4 0) h'.usHuffAC =
      ((makeEach (makeAc bThumbnail) 4 4 0 h').1.usHuffAC, true) := by
  refine (makeEach_eq HuffTables.usHuffAC (fun t h' hsame => ?_) 4 0 hsame hok).2
  refine ⟨makeAc_same bThumbnail t hsame, fun hdone => ?_⟩
  rw [makeAc_eq bThumbnail t hsame ((makeAc_ok_iff bThumbnail t hsame).mp hdone).1, hdone]

/-- `JPEGMakeHuffTables` succeeds exactly if every code of a DC table in use has at most 12 bits
    and, beyond 6 bits, begins with 5 ones, every code of an AC table in use begins with 6 ones
    beyond 10 bits, and only the first two AC tables are in use. -/
theorem jpegMakeHuffTables_ok_iff (bThumbnail : Bool) (h : HuffTables) :
    (h.jpegMakeHuffTables bThumbnail).2 = true ↔
      (∀ t < 4, h.used t = true → ∀ c ∈ tableCodes h.pHuffVals t, DcCode c) ∧
      ∀ t < 4, h.used (t + 4) = true → t < 2 ∧ ∀ c ∈ tableCodes h.pHuffVals (t + 4), AcCode c := by
  -- the DC tables first
  have hdc := makeEach_ok_iff 0
    (fun t h' hsame => ⟨(makeDc_eq t hsame).1, makeDc_ok_iff t hsame⟩) 4 0 (SameTables.refl h)
  have hdcSame := dcLoop_eq (h := h)
  simp only [Nat.zero_le, Nat.zero_add, Nat.add_zero, true_implies] at hdc
  rw [jpegMakeHuffTables, ← hdc]
  generalize makeEach makeDc 0 4 0 h = r at hdcSame
  obtain ⟨h', ok⟩ := r
  cases ok with
  | false => simp
  | true =>
    -- then the AC tables, of the same symbols
    have hac := makeEach_ok_iff 4 (fun t h'' hsame =>
      ⟨makeAc_same bThumbnail t hsame, makeAc_ok_iff bThumbnail t hsame⟩) 4 0 (hdcSame rfl).1
    simp only [Nat.zero_le, Nat.zero_add, true_implies] at hac
    simp only [hac, true_and]

/-! ## All lookups -/

/-- The codes of the used tables. -/
theorem mem_items {h : HuffTables} {first n i : Nat} {x : Nat × Codeword UInt8} :
    x ∈ items h first n i ↔ (i ≤ x.1 ∧ x.1 < i + n) ∧ h.used (x.1 + first) = true ∧
      x.2 ∈ tableCodes h.pHuffVals (x.1 + first) := by
  obtain ⟨t, c⟩ := x
  simp only [items, List.mem_flatMap, List.mem_filter, List.mem_range'_1, List.mem_map,
    Prod.mk.injEq, and_assoc]
  constructor
  · rintro ⟨t', hlow, hhigh, hused, c', hc, rfl, rfl⟩
    exact ⟨hlow, hhigh, hused, hc⟩
  · rintro ⟨hlow, hhigh, hused, hc⟩
    exact ⟨t, hlow, hhigh, hused, c, hc, rfl, rfl⟩

/-- The codes are entered table by table, and in each table in the order of their windows. -/
theorem items_pairwise (h : HuffTables) (first n i : Nat) :
    (items h first n i).Pairwise (Precedes 16) := by
  -- within a table, and between two tables
  refine List.pairwise_flatMap.mpr ⟨fun t _ => ?_, ?_⟩
  · exact List.pairwise_map.mpr ((tableCodes_pairwise _ _).imp fun hbefore => .inr ⟨rfl, hbefore⟩)
  · refine (List.Pairwise.filter _ (List.pairwise_lt_range' (s := i) (n := n) 1)).imp ?_
    intro t t' hlt x hx y hy
    obtain ⟨c, -, rfl⟩ := List.mem_map.mp hx
    obtain ⟨d, -, rfl⟩ := List.mem_map.mp hy
    exact .inl hlt

/-- What each table leaves as it is, all tables leave as it is. -/
theorem makeEach_keep {δ : Type} (keep : HuffTables → δ)
    (make : Nat → HuffTables → HuffTables × Bool) (hmake : ∀ t h, keep (make t h).1 = keep h)
    (first n i : Nat) (h : HuffTables) : keep (makeEach make first n i h).1 = keep h := by
  induction n generalizing i h with
  | zero => rfl
  | succ n ih =>
    rw [makeEach]
    split
    · have hi := hmake i h
      generalize make i h = r at hi
      obtain ⟨h', ok⟩ := r
      cases ok with
      | true => exact (ih (i + 1) h').trans hi
      | false => exact hi
    · exact ih (i + 1) h

/-- The AC tables are not written to `ucHuffDC`. -/
theorem makeAc_keep (bThumbnail : Bool) {a : Nat} (ha : a < ucHuffDCSize) (t : Nat)
    (h : HuffTables) : (makeAc bThumbnail t h).1.ucHuffDC a = h.ucHuffDC a := by
  rw [makeAc]
  split
  · rfl
  · exact withHuffAC_of_lt h _ ha

/-- The memory between the loop over the DC tables and the loop over the AC tables. -/
def dcTables (h : HuffTables) : HuffTables := (makeEach makeDc 0 4 0 h).1

/-- The tables have been expanded, and the codes of the tables in use are prefix codes without the
    code of only ones. -/
structure Expanded (bThumbnail : Bool) (h : HuffTables) : Prop where
  ok : (h.jpegMakeHuffTables bThumbnail).2 = true
  proper : ∀ i < 8, h.used i = true → Proper h.pHuffVals i

namespace Expanded

variable {bThumbnail : Bool} {h : HuffTables} (hx : Expanded bThumbnail h)

include hx

/-- Both loops have come to their end, and the second one has not changed `ucHuffDC`. -/
theorem tables :
    enterAll (dcItem h.ucMode) (items h 0 4 0) h.ucHuffDC = ((dcTables h).ucHuffDC, true) ∧
      enterAll (acItem bThumbnail) (items h 4 4 0) (dcTables h).usHuffAC =
        ((h.jpegMakeHuffTables bThumbnail).1.usHuffAC, true) ∧
      ∀ a < ucHuffDCSize,
        (h.jpegMakeHuffTables bThumbnail).1.ucHuffDC a = (dcTables h).ucHuffDC a := by
  have hok := hx.ok
  have hdc := dcLoop_eq (h := h)
  rw [dcTables]
  rw [jpegMakeHuffTables] at hok ⊢
  generalize makeEach makeDc 0 4 0 h = r at hdc hok
  obtain ⟨h', ok⟩ := r
  cases ok with
  | false => cases hok
  | true =>
    -- the AC loop writes behind the DC tables only
    obtain ⟨hsame, hentered⟩ := hdc rfl
    refine ⟨hentered, acLoop_eq hsame hok, fun a ha => ?_⟩
    exact makeEach_keep (fun h => h.ucHuffDC a) _ (makeAc_keep bThumbnail ha) 4 4 0 h'

/-- The DC codes fit the lookup, -/
theorem dcFits {x : Nat × Codeword UInt8} (hmem : x ∈ items h 0 4 0) : dcLevels.Fits x.2 := by
  obtain ⟨hrange, hused, hc⟩ := mem_items.mp hmem
  have hcode := ((jpegMakeHuffTables_ok_iff bThumbnail h).mp hx.ok).1 x.1 (by omega) hused x.2 hc
  exact ⟨hcode.1, ((hx.proper x.1 (by omega) hused).bounds hc).2⟩

/-- and the AC codes. -/
theorem acFits {x : Nat × Codeword UInt8} (hmem : x ∈ items h 4 4 0) : acLevels.Fits x.2 := by
  obtain ⟨hrange, hused, hc⟩ := mem_items.mp hmem
  have hbounds := (hx.proper (x.1 + 4) (by omega) hused).bounds hc
  exact ⟨hbounds.1.2, hbounds.2⟩

/-- The cells of the DC codes are disjoint, -/
theorem dcDisjoint : (items h 0 4 0).Pairwise fun x y =>
    ∀ a, dcCells h.ucMode x a ≠ none → dcCells h.ucMode y a = none := by
  refine (items_pairwise h 0 4 0).imp_of_mem fun hmem hmem' hxy a => ?_
  have hfits := hx.dcFits hmem
  have hfits' := hx.dcFits hmem'
  refine dcCells_disjoint hfits hfits' (hxy.imp_right fun ⟨heq, hbefore⟩ => ⟨heq, ?_⟩)
  exact hbefore.narrow (by decide) hfits.len_le hfits'.len_le

/-- and those of the AC codes. -/
theorem acDisjoint : (items h 4 4 0).Pairwise fun x y =>
    ∀ a, acCells bThumbnail x a ≠ none → acCells bThumbnail y a = none :=
  (items_pairwise h 4 4 0).imp_of_mem fun hmem hmem' hxy _ =>
    acCells_disjoint (hx.acFits hmem) (hx.acFits hmem') hxy

/-- What the codes put into a cell of the DC tables. -/
theorem dc_entered {x : Nat × Codeword UInt8} {a : Nat} {v : UInt8} (hmem : x ∈ items h 0 4 0)
    (hcell : dcCells h.ucMode x a = some v) : (dcTables h).ucHuffDC a = v := by
  have hv := enterAll_entered (dcItem_cells h.ucMode) hx.dcDisjoint (m := h.ucHuffDC)
    (by rw [hx.tables.1]) hmem hcell
  rwa [hx.tables.1] at hv

/-- A cell into which no DC code is put. -/
theorem dc_frame {a : Nat} (hcells : ∀ x ∈ items h 0 4 0, dcCells h.ucMode x a = none) :
    (dcTables h).ucHuffDC a = h.ucHuffDC a := by
  have hv := enterAll_frame (dcItem_cells h.ucMode) (m := h.ucHuffDC) hcells
  rwa [hx.tables.1] at hv

/-- What the codes put into an element of the AC tables. -/
theorem ac_entered {x : Nat × Codeword UInt8} {a : Nat} {v : UInt16} (hmem : x ∈ items h 4 4 0)
    (hcell : acCells bThumbnail x a = some v) :
    (h.jpegMakeHuffTables bThumbnail).1.usHuffAC a = v := by
  have hv := enterAll_entered (acItem_cells bThumbnail) hx.acDisjoint (m := (dcTables h).usHuffAC)
    (by rw [hx.tables.2.1]) hmem hcell
  rwa [hx.tables.2.1] at hv

/-- An element into which no AC code is put. -/
theorem ac_frame {a : Nat} (hcells : ∀ x ∈ items h 4 4 0, acCells bThumbnail x a = none) :
    (h.jpegMakeHuffTables bThumbnail).1.usHuffAC a = (dcTables h).usHuffAC a := by
  have hv := enterAll_frame (acItem_cells bThumbnail) (m := (dcTables h).usHuffAC) hcells
  rwa [hx.tables.2.1] at hv

/-- The cells of DC table `t` lie in its 1024 bytes. -/
theorem dcCells_bounds {x : Nat × Codeword UInt8} {a : Nat} (hmem : x ∈ items h 0 4 0)
    (hcell : dcCells h.ucMode x a ≠ none) :
    x.1 * dcTableSize ≤ a ∧ a < x.1 * dcTableSize + dcTableSize := by
  have hlong : dcLevels.long = 128 := rfl
  -- an entry would belong to a code that the window begins with; a coefficient lies 512 further on
  rcases inBlock_of_dcCells hcell with hin | ⟨⟨hle, -⟩, hin⟩
  · obtain ⟨hlow, hhigh⟩ := hin.bounds (hx.dcFits hmem)
    refine ⟨hlow, Nat.lt_of_lt_of_le hhigh (Nat.add_le_add_left ?_ _)⟩
    decide
  · -- a difference lies 512 bytes behind its code
    obtain ⟨hlow, hhigh⟩ := hin.bounds (hx.dcFits hmem)
    simp only [hlong, dcTableSize] at hlow hhigh ⊢
    omega

/-- Without DC tables 2 and 3 the AC tables are made of what was in `usHuffAC` before. -/
theorem dcTables_usHuffAC (hfit : h.used 2 = false ∧ h.used 3 = false) :
    (dcTables h).usHuffAC = h.usHuffAC := by
  refine usHuffAC_congr fun a ha => hx.dc_frame fun x hmem => ?_
  by_contra hcell
  have hbounds := hx.dcCells_bounds hmem hcell
  obtain ⟨hrange, hused, -⟩ := mem_items.mp hmem
  simp only [ucHuffDCSize, dcTableSize] at ha hbounds
  obtain h2 | h3 : x.1 = 2 ∨ x.1 = 3 := by omega
  · simp [h2, hfit.1] at hused
  · simp [h3, hfit.2] at hused

/-- A lookup in table `t` meets a DC code exactly if the code is one of the table and the window
    begins with it. -/
theorem inBlock_dcIndex_iff {x : Nat × Codeword UInt8} {t w : Nat} (hmem : x ∈ items h 0 4 0)
    (hw : w < 2 ^ 12) :
    InBlock dcLevels dcTableSize x (t * dcTableSize + dcLevels.index w) ↔
      x.1 = t ∧ x.2.Begins 12 w := by
  have hfits := hx.dcFits hmem
  -- a code of another table has its places there
  by_cases ht : x.1 = t
  · obtain ⟨hrange, hused, hc⟩ := mem_items.mp hmem
    have hcode := ((jpegMakeHuffTables_ok_iff bThumbnail h).mp hx.ok).1 x.1 (by omega) hused x.2 hc
    have hslot : (dcLevels.slot x.2).isSome := by
      rw [TwoLevel.slot_isSome_iff]
      unfold DcCode at hcode
      simp only [dcLevels]
      omega
    subst ht
    simp only [true_and]
    exact inBlock_index_iff hfits hslot hw
  · simp only [ht, false_and, iff_false]
    exact not_inBlock_index (by decide) hfits hw ht

/-- Looking sixteen bits up finds the AC code they begin with. -/
theorem inBlock_acIndex_iff {x : Nat × Codeword UInt8} {t w : Nat} (hmem : x ∈ items h 4 4 0)
    (hw : w < 2 ^ 16) :
    InBlock acLevels huff11Size x (t * huff11Size + acLevels.index w) ↔
      x.1 = t ∧ x.2.Begins 16 w := by
  have hfits := hx.acFits hmem
  -- again the places are in the code's own table
  by_cases ht : x.1 = t
  · obtain ⟨hrange, hused, hc⟩ := mem_items.mp hmem
    have hcode :=
      (((jpegMakeHuffTables_ok_iff bThumbnail h).mp hx.ok).2 x.1 (by omega) hused).2 x.2 hc
    have hslot : (acLevels.slot x.2).isSome := by
      rw [TwoLevel.slot_isSome_iff]
      unfold AcCode at hcode
      simp only [acLevels]
      omega
    subst ht
    simp only [true_and]
    exact inBlock_index_iff hfits hslot hw
  · simp only [ht, false_and, iff_false]
    exact not_inBlock_index (by decide) hfits hw ht

/-- No DC code is entered at a lookup plus 512, other than the differences of the code itself. -/
theorem not_inBlock_dcIndex_add {x : Nat × Codeword UInt8} {t w : Nat} (hmem : x ∈ items h 0 4 0)
    (hw : w < 2 ^ 12) :
    ¬ InBlock dcLevels dcTableSize x (t * dcTableSize + dcLevels.index w + 512) := by
  intro hin
  have hbounds := hin.bounds (hx.dcFits hmem)
  have hindex := TwoLevel.index_lt (t := dcLevels) hw
  have hlong : dcLevels.long = 128 := rfl
  simp only [hlong, dcTableSize] at hbounds hindex
  omega

variable {t : Nat} (ht : t < 2) {c : Codeword UInt8} {w : UInt32}

include ht

section

variable (hused : h.used t = true) (hw : w.toNat < 2 ^ 12)

include hw

/-- DC tables 0 and 1 are left as they are by the loop over the AC tables. -/
theorem dc_kept {k : Nat} (hk : k ≤ 512) :
    (h.jpegMakeHuffTables bThumbnail).1.ucHuffDC (t * dcTableSize + dcLevels.index w.toNat + k) =
      (dcTables h).ucHuffDC (t * dcTableSize + dcLevels.index w.toNat + k) := by
  have hindex := TwoLevel.index_lt (t := dcLevels) hw
  have hlong : dcLevels.long = 128 := rfl
  refine hx.tables.2.2 _ ?_
  simp only [hlong] at hindex
  simp only [ucHuffDCSize, dcTableSize]
  omega

include hused

/-- The next bits begin with a code of DC table `t`. -/
theorem dc_code (hc : c ∈ tableCodes h.pHuffVals t) (hbegins : c.Begins 12 w.toNat) :
    (h.jpegMakeHuffTables bThumbnail).1.ucHuffDC (t * dcTableSize + (dcIndex w).toNat) =
      dcEntry h.ucMode c := by
  have hmem : (t, c) ∈ items h 0 4 0 := mem_items.mpr ⟨by omega, hused, hc⟩
  have hkept := hx.dc_kept ht hw (Nat.zero_le 512)
  rw [Nat.add_zero] at hkept
  rw [dcIndex_toNat hw]
  have hin := (hx.inBlock_dcIndex_iff hmem hw).mpr ⟨rfl, hbegins⟩
  exact hkept.trans (hx.dc_entered hmem (dcCells_of_inBlock hin))

/-- The difference behind the entry of a code. -/
theorem dc_coeff (hc : c ∈ tableCodes h.pHuffVals t) (hbegins : c.Begins 12 w.toNat) :
    (h.jpegMakeHuffTables bThumbnail).1.ucHuffDC (t * dcTableSize + (dcIndex w).toNat + 512) =
      if precalculated h.ucMode c then
        dcCoeff c.sym.toNat (w.toNat / 2 ^ (12 - c.len - c.sym.toNat) % 2 ^ c.sym.toNat)
      else h.ucHuffDC (t * dcTableSize + (dcIndex w).toNat + 512) := by
  -- a code's coefficient is in the table where it has been calculated
  have hmem : (t, c) ∈ items h 0 4 0 := mem_items.mpr ⟨by omega, hused, hc⟩
  rw [dcIndex_toNat hw, hx.dc_kept ht hw (Nat.le_refl 512)]
  split
  · rename_i hpre
    exact hx.dc_entered hmem (dcCells_coeff (x := (t, c)) (hx.dcFits hmem) hw hpre hbegins)
  · -- the only code that could be entered there is `c`, and it has no differences
    rename_i hpre
    refine hx.dc_frame fun x hx' => ?_
    by_contra hcell
    rcases inBlock_of_dcCells hcell with hin | ⟨⟨-, hpre'⟩, hin⟩
    · exact hx.not_inBlock_dcIndex_add hx' hw hin
    · rw [Nat.add_sub_cancel] at hin
      obtain ⟨rfl, hbegins'⟩ := (hx.inBlock_dcIndex_iff hx' hw).mp hin
      have hlen := (hx.dcFits hmem).len_le
      have hlen' := (hx.dcFits hx').len_le
      obtain rfl := eq_of_begins (by rw [length_tableGroups]) hc (mem_items.mp hx').2.2
        (hbegins.extend (by decide : 12 ≤ 16) hlen) (hbegins'.extend (by decide) hlen')
      exact hpre hpre'

/-- The next bits begin with no code of DC table `t`. -/
theorem dc_none (hnone : ∀ c ∈ tableCodes h.pHuffVals t, ¬ c.Begins 12 w.toNat) :
    (h.jpegMakeHuffTables bThumbnail).1.ucHuffDC (t * dcTableSize + (dcIndex w).toNat) =
      h.ucHuffDC (t * dcTableSize + (dcIndex w).toNat) := by
  have hkept := hx.dc_kept ht hw (Nat.zero_le 512)
  rw [Nat.add_zero] at hkept
  rw [dcIndex_toNat hw]
  refine hkept.trans (hx.dc_frame fun x hx' => ?_)
  by_contra hcell
  rcases inBlock_of_dcCells hcell with hin | ⟨⟨hle, -⟩, hin⟩
  · obtain ⟨rfl, hbegins⟩ := (hx.inBlock_dcIndex_iff hx' hw).mp hin
    exact hnone x.2 (mem_items.mp hx').2.2 hbegins
  · have hbounds := hin.bounds (hx.dcFits hx')
    have hindex := TwoLevel.index_lt (t := dcLevels) hw
    have hlong : dcLevels.long = 128 := rfl
    simp only [hlong, dcTableSize] at hbounds hindex hle
    omega

end

section

variable (hused : h.used (t + 4) = true) (hw : w.toNat < 2 ^ 16)

include hused hw

/-- The next bits begin with a code of AC table `t`. -/
theorem ac_code (hc : c ∈ tableCodes h.pHuffVals (t + 4)) (hbegins : c.Begins 16 w.toNat) :
    (h.jpegMakeHuffTables bThumbnail).1.usHuffAC (t * huff11Size + (acIndex w).toNat) =
      acEntry bThumbnail c := by
  have hmem : (t, c) ∈ items h 4 4 0 := mem_items.mpr ⟨by omega, hused, hc⟩
  rw [acIndex_toNat hw]
  have hin := (hx.inBlock_acIndex_iff hmem hw).mpr ⟨rfl, hbegins⟩
  exact hx.ac_entered hmem (acCells_of_inBlock hin)

/-- The next bits begin with no code of AC table `t`. -/
theorem ac_none (hfit : h.used 2 = false ∧ h.used 3 = false)
    (hnone : ∀ c ∈ tableCodes h.pHuffVals (t + 4), ¬ c.Begins 16 w.toNat) :
    (h.jpegMakeHuffTables bThumbnail).1.usHuffAC (t * huff11Size + (acIndex w).toNat) =
      h.usHuffAC (t * huff11Size + (acIndex w).toNat) := by
  rw [acIndex_toNat hw, ← hx.dcTables_usHuffAC hfit]
  refine hx.ac_frame fun x hx' => ?_
  by_contra hcell
  obtain ⟨rfl, hbegins⟩ := (hx.inBlock_acIndex_iff hx' hw).mp (inBlock_of_acCells hcell)
  exact hnone x.2 (mem_items.mp hx').2.2 hbegins

end

end Expanded

/-- A DC entry is not zero, -/
theorem dcEntry_ne_zero {ucMode : UInt8} {c : Codeword UInt8} (hlow : 1 ≤ c.len)
    (hhigh : c.len ≤ 12) : dcEntry ucMode c ≠ 0 := by
  intro hzero
  -- the length is in the high nibble
  have hbits : ∀ n, 1 ≤ n → n ≤ 12 → c.sym ||| UInt8.ofNat (n <<< 4) ≠ 0 := by
    intro n hn hn' h0
    have hn0 := (UInt8.or_eq_zero_iff.mp h0).2
    rw [← UInt8.toNat_inj, UInt8.toNat_ofNat', Nat.shiftLeft_eq] at hn0
    simp only [UInt8.toNat_zero] at hn0
    omega
  rw [dcEntry] at hzero
  split at hzero
  · rename_i hpre
    simp only [precalculated, decide_eq_true_eq] at hpre
    exact hbits (c.len + c.sym.toNat) (by omega) (by omega) hzero
  · exact hbits c.len hlow hhigh hzero

/-- nor is an AC entry. -/
theorem acEntry_ne_zero {c : Codeword UInt8} (hlow : 1 ≤ c.len) (hhigh : c.len ≤ 16) :
    acEntry false c ≠ 0 := by
  intro hzero
  have hlen := (UInt16.or_eq_zero_iff.mp hzero).2
  rw [← UInt16.toNat_inj, UInt16.toNat_ofNat', Nat.shiftLeft_eq] at hlen
  simp only [UInt16.toNat_zero] at hlen
  omega

/-- Every lookup in the tables that `JPEGMakeHuffTables` makes of zeros: in DC tables 0 and 1 the
    decoder finds an entry exactly if the data goes on with a code of the table, and then it is the
    entry of this code. The difference that the next bits stand for lies 512 bytes behind, if it
    fits. In an AC table it finds the entry of the code too, and where there is no code it finds no
    entry unless DC table 2 or 3 has left something there. -/
theorem expanded_lookups_exact {h : HuffTables} (hx : Expanded false h)
    (hzero : ∀ a, h.ucHuffDC a = 0) :
    (∀ t < 2, h.used t = true → ∀ w : UInt32, w.toNat < 2 ^ 12 →
      ((h.jpegMakeHuffTables false).1.ucHuffDC (t * dcTableSize + (dcIndex w).toNat) ≠ 0 ↔
        ∃ c ∈ tableCodes h.pHuffVals t, c.Begins 12 w.toNat) ∧
      ∀ c ∈ tableCodes h.pHuffVals t, c.Begins 12 w.toNat →
        (h.jpegMakeHuffTables false).1.ucHuffDC (t * dcTableSize + (dcIndex w).toNat) =
          dcEntry h.ucMode c ∧
        (h.jpegMakeHuffTables false).1.ucHuffDC (t * dcTableSize + (dcIndex w).toNat + 512) =
          if precalculated h.ucMode c then
            dcCoeff c.sym.toNat (w.toNat / 2 ^ (12 - c.len - c.sym.toNat) % 2 ^ c.sym.toNat)
          else 0) ∧
    ∀ t < 4, h.used (t + 4) = true → ∀ w : UInt32, w.toNat < 2 ^ 16 →
      (h.used 2 = false ∧ h.used 3 = false →
        ((h.jpegMakeHuffTables false).1.usHuffAC (t * huff11Size + (acIndex w).toNat) ≠ 0 ↔
          ∃ c ∈ tableCodes h.pHuffVals (t + 4), c.Begins 16 w.toNat)) ∧
      ∀ c ∈ tableCodes h.pHuffVals (t + 4), c.Begins 16 w.toNat →
        (h.jpegMakeHuffTables false).1.usHuffAC (t * huff11Size + (acIndex w).toNat) =
          acEntry false c := by
  constructor
  · intro t ht hused w hw
    refine ⟨⟨fun hne => ?_, ?_⟩, fun c hc hbegins => ⟨hx.dc_code ht hused hw hc hbegins, ?_⟩⟩
    · by_contra hnone
      rw [hx.dc_none ht hused hw fun c hc hbegins => hnone ⟨c, hc, hbegins⟩, hzero] at hne
      exact hne rfl
    · rintro ⟨c, hc, hbegins⟩
      rw [hx.dc_code ht hused hw hc hbegins]
      have hmem : (t, c) ∈ items h 0 4 0 := mem_items.mpr ⟨by omega, hused, hc⟩
      exact dcEntry_ne_zero ((hx.proper t (by omega) hused).bounds hc).1.1 (hx.dcFits hmem).len_le
    · rw [hx.dc_coeff ht hused hw hc hbegins, hzero]
  · intro t ht hused w hw
    -- the others are refused
    have htwo := (((jpegMakeHuffTables_ok_iff false h).mp hx.ok).2 t ht hused).1
    refine ⟨fun hfit => ⟨fun hne => ?_, ?_⟩, fun c => hx.ac_code htwo hused hw⟩
    · by_contra hnone
      rw [hx.ac_none htwo hused hw hfit fun c hc hbegins => hnone ⟨c, hc, hbegins⟩,
        usHuffAC_of_zero hzero] at hne
      exact hne rfl
    · rintro ⟨c, hc, hbegins⟩
      rw [hx.ac_code htwo hused hw hc hbegins]
      have hlen := ((hx.proper (t + 4) (by omega) hused).bounds hc).1
      exact acEntry_ne_zero hlen.1 hlen.2

/-- The table that most encoders use for the DC coefficients of the luminance. -/
def luminanceDc : List UInt8 :=
  [0, 1, 5, 1, 1, 1, 1, 1, 1, 0, 0, 0, 0, 0, 0, 0,
    0, 1, 2, 3, 4, 5, 6, 7, 8, 9, 10, 11]

/-- The one for the AC coefficients. -/
def luminanceAc : List UInt8 :=
  [0, 2, 1, 3, 3, 2, 4, 3, 5, 5, 4, 4, 0, 0, 1, 0x7d,
    0x01, 0x02, 0x03, 0x00, 0x04, 0x11, 0x05, 0x12, 0x21, 0x31, 0x41, 0x06, 0x13, 0x51, 0x61, 0x07,
    0x22, 0x71, 0x14, 0x32, 0x81, 0x91, 0xa1, 0x08, 0x23, 0x42, 0xb1, 0xc1, 0x15, 0x52, 0xd1, 0xf0,
    0x24, 0x33, 0x62, 0x72, 0x82, 0x09, 0x0a, 0x16, 0x17, 0x18, 0x19, 0x1a, 0x25, 0x26, 0x27, 0x28,
    0x29, 0x2a, 0x34, 0x35, 0x36, 0x37, 0x38, 0x39, 0x3a, 0x43, 0x44, 0x45, 0x46, 0x47, 0x48, 0x49,
    0x4a, 0x53, 0x54, 0x55, 0x56, 0x57, 0x58, 0x59, 0x5a, 0x63, 0x64, 0x65, 0x66, 0x67, 0x68, 0x69,
    0x6a, 0x73, 0x74, 0x75, 0x76, 0x77, 0x78, 0x79, 0x7a, 0x83, 0x84, 0x85, 0x86, 0x87, 0x88, 0x89,
    0x8a, 0x92, 0x93, 0x94, 0x95, 0x96, 0x97, 0x98, 0x99, 0x9a, 0xa2, 0xa3, 0xa4, 0xa5, 0xa6, 0xa7,
    0xa8, 0xa9, 0xaa, 0xb2, 0xb3, 0xb4, 0xb5, 0xb6, 0xb7, 0xb8, 0xb9, 0xba, 0xc2, 0xc3, 0xc4, 0xc5,
    0xc6, 0xc7, 0xc8, 0xc9, 0xca, 0xd2, 0xd3, 0xd4, 0xd5, 0xd6, 0xd7, 0xd8, 0xd9, 0xda, 0xe1, 0xe2,
    0xe3, 0xe4, 0xe5, 0xe6, 0xe7, 0xe8, 0xe9, 0xea, 0xf1, 0xf2, 0xf3, 0xf4, 0xf5, 0xf6, 0xf7, 0xf8,
    0xf9, 0xfa]

/-- The decoder with these two as DC table 0 and AC table 0. -/
def luminanceTables : HuffTables where
  ucHuffTableUsed := 0x11
  ucMode := 0xc0
  pHuffVals := Mem.store (Mem.store (fun _ => 0) 0 luminanceDc) (4 * huffTablen) luminanceAc
  ucHuffDC := fun _ => 0

/-- The tables of the JPEG standard for the luminance. -/
theorem expanded_luminanceTables : Expanded false luminanceTables :=
  ⟨by decide +kernel, by decide +kernel⟩

/-- The bits 110 are the DC code of the size 5, and 1111 1111 001 is the AC
    code of 16 zeros. -/
theorem expanded_lookups_exact_luminance :
    (luminanceTables.jpegMakeHuffTables false).1.ucHuffDC
        (0 * dcTableSize + (dcIndex 0xc00).toNat) =
        0x35 ∧
      (luminanceTables.jpegMakeHuffTables false).1.usHuffAC
        (0 * huff11Size + (acIndex 0xff2a).toNat) = 0x0bf0 := by
  obtain ⟨hdc, hac⟩ := expanded_lookups_exact expanded_luminanceTables fun _ => rfl
  have hdc5 := ((hdc 0 (by decide) (by decide) 0xc00 (by decide)).2 ⟨3, 6, 5⟩ (by decide +kernel)
    (by decide)).1
  have hac16 := (hac 0 (by decide) (by decide) 0xff2a (by decide)).2 ⟨11, 0x7f9, 0xf0⟩
    (by decide +kernel) (by decide)
  exact ⟨hdc5.trans (by decide), hac16.trans (by decide)⟩

/-! ## Where the tables are written -/

section

variable {bThumbnail : Bool} {h : HuffTables}

/-- Neither loop writes behind `usHuffAC`. -/
theorem Expanded.behind_kept (hx : Expanded bThumbnail h) {a : Nat}
    (ha : ucHuffDCSize + 2 * usHuffACSize ≤ a) :
    (h.jpegMakeHuffTables bThumbnail).1.ucHuffDC a = h.ucHuffDC a := by
  simp only [ucHuffDCSize, usHuffACSize, huff11Size, dcTableSize] at ha
  -- four DC tables end in front of it, and so do two AC tables
  have hdc : (dcTables h).ucHuffDC a = h.ucHuffDC a := by
    refine hx.dc_frame fun x hmem => ?_
    by_contra hcell
    have hbounds := hx.dcCells_bounds hmem hcell
    have hrange := (mem_items.mp hmem).1
    simp only [dcTableSize] at hbounds
    omega
  have hac : (h.jpegMakeHuffTables bThumbnail).1.usHuffAC ((a - ucHuffDCSize) / 2) =
      (dcTables h).usHuffAC ((a - ucHuffDCSize) / 2) := by
    refine hx.ac_frame fun x hmem => ?_
    by_contra hcell
    have hbounds := (inBlock_of_acCells hcell).bounds (hx.acFits hmem)
    obtain ⟨hrange, hused, -⟩ := mem_items.mp hmem
    have htwo := (((jpegMakeHuffTables_ok_iff bThumbnail h).mp hx.ok).2 x.1 (by omega) hused).1
    have hlong : acLevels.long = 1024 := rfl
    simp only [hlong, huff11Size, ucHuffDCSize, dcTableSize] at hbounds
    omega
  refine (ucHuffDC_of_usHuffAC ?_ rfl hac).trans hdc
  simp only [ucHuffDCSize, dcTableSize]
  omega

/-- A code of DC table `t` has an entry in the 1024 bytes of the table. -/
theorem Expanded.dc_entry_exists (hx : Expanded bThumbnail h) {t : Nat} {c : Codeword UInt8}
    (hmem : (t, c) ∈ items h 0 4 0) :
    ∃ a, (t * dcTableSize ≤ a ∧ a < t * dcTableSize + dcTableSize) ∧
      (dcTables h).ucHuffDC a ≠ 0 := by
  obtain ⟨hrange, hused, hc⟩ := mem_items.mp hmem
  have hcode := ((jpegMakeHuffTables_ok_iff bThumbnail h).mp hx.ok).1 t (by omega) hused c hc
  have hsome : (dcLevels.slot c).isSome := by
    rw [TwoLevel.slot_isSome_iff]
    unfold DcCode at hcode
    simp only [dcLevels]
    omega
  obtain ⟨⟨o, k⟩, hslot⟩ := Option.isSome_iff_exists.mp hsome
  have hpos := Nat.two_pow_pos k
  -- its first place holds the entry
  have hcell : dcCells h.ucMode (t, c) (t * dcTableSize + o) = some (dcEntry h.ucMode c) :=
    dcCells_of_inBlock ⟨o, k, hslot, by simp only; omega, by simp only; omega⟩
  have hbounds := hx.dcCells_bounds hmem (by rw [hcell]; exact Option.some_ne_none _)
  refine ⟨t * dcTableSize + o, hbounds, ?_⟩
  rw [hx.dc_entered hmem hcell]
  exact dcEntry_ne_zero ((hx.proper t (by omega) hused).bounds hc).1.1 (hx.dcFits hmem).len_le

/-- Nothing behind `usHuffAC` is written, and the loop over the DC tables leaves `ucHuffDC`, which
    has room for two tables, exactly if DC table 2 or 3 is in use with a code. What it writes then
    lies in `usHuffAC`. -/
theorem dc_tables_overflow_iff (hx : Expanded bThumbnail h) (hzero : ∀ a, h.ucHuffDC a = 0) :
    (∀ a ≥ ucHuffDCSize + 2 * usHuffACSize,
        (h.jpegMakeHuffTables bThumbnail).1.ucHuffDC a = 0) ∧
      ((∃ i < usHuffACSize, (dcTables h).usHuffAC i ≠ 0) ↔
        ∃ t, (2 ≤ t ∧ t < 4) ∧ h.used t = true ∧ tableCodes h.pHuffVals t ≠ []) := by
  refine ⟨fun a ha => (hx.behind_kept ha).trans (hzero a), ?_, ?_⟩
  · rintro ⟨i, -, hne⟩
    by_contra hnone
    -- without a code of these tables no byte of `usHuffAC` is written
    refine hne (Eq.trans (congrFun ?_ i) (usHuffAC_of_zero hzero))
    refine usHuffAC_congr fun a ha => hx.dc_frame fun x hmem => ?_
    by_contra hcell
    have hbounds := hx.dcCells_bounds hmem hcell
    obtain ⟨hrange, hused, hc⟩ := mem_items.mp hmem
    simp only [ucHuffDCSize, dcTableSize] at ha hbounds
    exact hnone ⟨x.1, by omega, hused, List.ne_nil_of_mem hc⟩
  · rintro ⟨t, ht, hused, hne⟩
    obtain ⟨c, hc⟩ := List.exists_mem_of_ne_nil _ hne
    obtain ⟨a, ha, hentry⟩ := hx.dc_entry_exists (mem_items.mpr ⟨by omega, hused, hc⟩)
    simp only [dcTableSize] at ha
    refine ⟨(a - ucHuffDCSize) / 2, ?_, fun h0 => hentry ?_⟩
    · simp only [ucHuffDCSize, usHuffACSize, huff11Size, dcTableSize]
      omega
    · -- an element of zero has no byte other than zero
      rw [← hzero a]
      refine ucHuffDC_of_usHuffAC ?_ rfl (h0.trans (usHuffAC_of_zero hzero).symm)
      simp only [ucHuffDCSize, dcTableSize]
      omega

end

/-- The table for the luminance as DC table 2. -/
def thirdTable : HuffTables :=
  { luminanceTables with
    ucHuffTableUsed := 0x04
    pHuffVals := Mem.store (fun _ => 0) (2 * huffTablen) luminanceDc }

/-- It is written to `usHuffAC`. -/
theorem dc_tables_overflow_iff_table_two :
    ∃ i < usHuffACSize, (dcTables thirdTable).usHuffAC i ≠ 0 :=
  have hx : Expanded false thirdTable := ⟨by decide +kernel, by decide +kernel⟩
  (dc_tables_overflow_iff hx fun _ => rfl).2.mpr ⟨2, by decide, by decide, by decide +kernel⟩

/-- That the codes are prefix codes is not checked. With 255 codes of two bits the tables are made
    too, and the codes behind the fourth are written behind `usHuffAC`. -/
example :
    let h : HuffTables :=
      ⟨0x10, 0xc0, Mem.store (fun _ => 0) (4 * huffTablen + 1) [255], fun _ => 0⟩
    (h.jpegMakeHuffTables false).2 = true ∧
      (h.jpegMakeHuffTables false).1.ucHuffDC (ucHuffDCSize + 2 * usHuffACSize + 1) ≠ 0 := by
  decide +kernel

end Ivy.Spec
