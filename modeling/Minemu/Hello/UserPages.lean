import Minemu.Hello.Image
import Minemu.Hello.Rom
import Minemu.Lib.Registry

/-!
# User pages: registration and writes

`user_page_vaddrs`, `user_page_flags` and `user_page_count` are a registry of the
pages of the module, and page `i` of `user_image_pages` holds the bytes of the
`i`-th of them.
-/

namespace Minemu.Hello

open Minemu.Lib.Memory Minemu.Lib.Page Minemu.Lib.Registry Minemu.Platform

variable (L : Layout)

def userPageCount (m : Mem) : Word := loadWord m (L.paddr .userPageCount 0)

def userPageVaddr (m : Mem) (index : Nat) : Word :=
  loadWord m (L.paddr .userPageVaddrs (4 * index))

def userPageFlag (m : Mem) (index : Nat) : Word :=
  loadWord m (L.paddr .userPageFlags (4 * index))

def copyBytes (image : Image) (m : Mem) (destination source : Word) : Nat → Option Mem
  | 0 => some m
  | index + 1 => do
    let m ← copyBytes image m destination source index
    let b ← image.byte (source + BitVec.ofNat 32 index)
    some (storeByte m (destination + BitVec.ofNat 32 index) b)

/-- The index returned, `none` for -1, and the memory left. -/
def userPageIndex (m : Mem) (page_vaddr flags : Word) (create : Bool) : Option Nat × Mem :=
  match (List.range (userPageCount L m).toNat).find?
      (fun index => decide (userPageVaddr L m index = page_vaddr)) with
  | some index =>
    if create && userPageFlag L m index != flags then (none, m) else (some index, m)
  | none =>
    if !create || userPageCount L m == BitVec.ofNat 32 maxUserImagePages then (none, m)
    else
      let index := (userPageCount L m).toNat
      let m := storeWord m (L.paddr .userPageCount 0) (userPageCount L m + 1)
      let m := storeWord m (L.paddr .userPageVaddrs (4 * index)) page_vaddr
      let m := storeWord m (L.paddr .userPageFlags (4 * index)) flags
      let m := zeroBytes m (L.paddr .userImagePages (4096 * index)) pageSize
      (some index, m)

def prepareUserPages (last flags : Word) : Nat → Mem → Word → Option (Bool × Mem)
  | 0, _, _ => none
  | fuel + 1, m, page =>
    if page < last then
      match userPageIndex L m page flags true with
      | (none, m) => some (false, m)
      | (some _, m) => prepareUserPages last flags fuel m (page + pageSize)
    else some (true, m)

def prepareUserRange (m : Mem) (vaddr length flags : Word) : Option (Bool × Mem) :=
  prepareUserPages L (vaddr + length) flags (2 ^ 20 + 1) m (vaddr &&& ptePageMask)

/-- The loop of `write_user_range`; `source` is `none` for a null pointer. -/
def writeUserPages (image : Image) :
    Nat → Mem → Word → Option Word → Word → Option (Bool × Mem)
  | 0, _, _, _, _ => none
  | fuel + 1, m, vaddr, source, length =>
    if length = 0 then some (true, m)
    else
      let page_vaddr := vaddr &&& ptePageMask
      match userPageIndex L m page_vaddr 0 false with
      | (none, m) => some (false, m)
      | (some index, m) =>
        let offset := vaddr - page_vaddr
        let chunk := pageSize - offset
        let chunk := if length < chunk then length else chunk
        let destination := L.paddr .userImagePages (4096 * index + offset.toNat)
        match source with
        | none =>
          writeUserPages image fuel (zeroBytes m destination chunk) (vaddr + chunk) none
            (length - chunk)
        | some source => do
          let m ← copyBytes image m destination source chunk.toNat
          writeUserPages image fuel m (vaddr + chunk) (some (source + chunk)) (length - chunk)

/-- Every pass but the last writes at least one byte. -/
def writeUserRange (image : Image) (m : Mem) (vaddr : Word) (source : Option Word)
    (length : Word) : Option (Bool × Mem) :=
  writeUserPages L image (length.toNat + 1) m vaddr source length

/-! ## The registry -/

/-- Memory holds the registry `ps`, page bases with their flags. -/
structure Registered (m : Mem) (ps : List (Word × Word)) : Prop where
  count : userPageCount L m = BitVec.ofNat 32 ps.length
  bound : ps.length ≤ maxUserImagePages
  vaddrs : ∀ i, (hi : i < ps.length) → userPageVaddr L m i = (ps.get ⟨i, hi⟩).1
  flags : ∀ i, (hi : i < ps.length) → userPageFlag L m i = (ps.get ⟨i, hi⟩).2
  nodup : (ps.map Prod.fst).Nodup

/-- The byte of user memory at `v`, zero where no page is registered. -/
def userByte (m : Mem) (ps : List (Word × Word)) (v : Word) : Byte :=
  match indexOf ps (pageBase v) with
  | some i => m (L.paddr .userImagePages (4096 * i + v.toNat % 4096))
  | none => 0

def registryObjects : List Object := [.userPageCount, .userPageVaddrs, .userPageFlags]

def pageObjects : List Object := .userImagePages :: registryObjects

namespace Registered

variable {L} {m m' : Mem} {ps : List (Word × Word)}

theorem length_le (h : Registered L m ps) : ps.length ≤ 16 := h.bound

theorem count_toNat (h : Registered L m ps) : (userPageCount L m).toNat = ps.length := by
  have hb := h.length_le
  rw [h.count, BitVec.toNat_ofNat, Nat.mod_eq_of_lt (by omega)]

theorem frame (h : Registered L m ps) {os : List Object} (hm : ChangedOnly (L.extents os) m m')
    (hos : ∀ o ∈ registryObjects, o ∉ os) : Registered L m' ps where
  count := by
    rw [← h.count]
    exact L.loadWord_frame hm (hos .userPageCount (by decide)) (by decide)
  bound := h.bound
  vaddrs i hi := by
    have hb := h.length_le
    rw [← h.vaddrs i hi]
    exact L.loadWord_frame hm (hos .userPageVaddrs (by decide)) (by simp; omega)
  flags i hi := by
    have hb := h.length_le
    rw [← h.flags i hi]
    exact L.loadWord_frame hm (hos .userPageFlags (by decide)) (by simp; omega)
  nodup := h.nodup

theorem find?_eq (h : Registered L m ps) (page_vaddr : Word) :
    (List.range (userPageCount L m).toNat).find?
      (fun index => decide (userPageVaddr L m index = page_vaddr)) = indexOf ps page_vaddr := by
  rw [h.count_toNat]
  exact find?_range_eq_indexOf ps page_vaddr h.vaddrs

theorem userPageIndex_find (h : Registered L m ps) (page_vaddr flags : Word) :
    userPageIndex L m page_vaddr flags false = (indexOf ps page_vaddr, m) := by
  rw [userPageIndex, h.find?_eq]
  cases indexOf ps page_vaddr <;> rfl

end Registered

/-! ## Frames of the module -/

/-- A run of bytes written inside one page of `user_image_pages`. -/
theorem fillPage_apply (m : Mem) (f : Nat → Byte) {i j off k n : Nat} (hi : i < 16) (hj : j < 16)
    (hoff : off + n ≤ 4096) (hk : k < 4096) :
    fillBytes m (L.paddr .userImagePages (4096 * i + off)) f n
        (L.paddr .userImagePages (4096 * j + k)) =
      if j = i ∧ off ≤ k ∧ k < off + n then f (k - off)
      else m (L.paddr .userImagePages (4096 * j + k)) := by
  have hbi := L.paddr_toNat .userImagePages (k := 4096 * i + off) (by simp; omega)
  have hbj := L.paddr_toNat .userImagePages (k := 4096 * j + k) (by simp; omega)
  have hlow := L.low .userImagePages
  have hhigh := L.high .userImagePages
  rw [show kernelDirectBase.toNat = 0xc0000000 by decide] at hlow
  rw [Object.size_userImagePages] at hhigh
  rw [fillBytes_apply _ _ _ _ _ (by omega)]
  by_cases hin : j = i ∧ off ≤ k ∧ k < off + n
  · have hmem : L.paddr .userImagePages (4096 * j + k) ∈
        region (L.paddr .userImagePages (4096 * i + off)) n := by
      rw [mem_region_of_le (by omega)]
      omega
    have hdiff : (L.paddr .userImagePages (4096 * j + k) -
        L.paddr .userImagePages (4096 * i + off)).toNat = k - off := by
      rw [BitVec.toNat_sub_of_le (by rw [BitVec.le_def]; omega)]
      omega
    rw [if_pos hin, if_pos hmem, hdiff]
  · rw [if_neg hin, if_neg]
    rw [mem_region_of_le (by omega)]
    omega

namespace Registered

variable {L} {m m' : Mem} {ps : List (Word × Word)}

theorem userPageIndex_refused (h : Registered L m ps) {page_vaddr flags : Word}
    (hent : enter maxUserImagePages ps (page_vaddr, flags) = none) :
    userPageIndex L m page_vaddr flags true = (none, m) := by
  rw [userPageIndex, h.find?_eq]
  rw [enter] at hent
  cases hidx : indexOf ps page_vaddr with
  | some i =>
      have hi := indexOf_lt hidx
      rw [hidx] at hent
      simp only [List.getElem?_eq_getElem hi, Option.map_some, Option.some.injEq, ite_eq_right_iff,
        reduceCtorEq, imp_false] at hent
      have hflag : userPageFlag L m i ≠ flags := by
        rw [h.flags i hi]
        exact hent
      simp [hflag]
  | none =>
      rw [hidx] at hent
      have hfull : ps.length = maxUserImagePages := by
        by_contra hne
        rw [if_neg hne] at hent
        cases hent
      simp [h.count, hfull]

theorem userPageIndex_known (h : Registered L m ps) {page_vaddr flags : Word} {i : Nat}
    (hidx : indexOf ps page_vaddr = some i)
    (hent : enter maxUserImagePages ps (page_vaddr, flags) ≠ none) :
    userPageIndex L m page_vaddr flags true = (some i, m) := by
  have hi := indexOf_lt hidx
  rw [enter, hidx] at hent
  simp only [List.getElem?_eq_getElem hi, Option.map_some, Option.some.injEq, ne_eq,
    ite_eq_right_iff, reduceCtorEq, imp_false, not_not] at hent
  have hflag : userPageFlag L m i = flags := by
    rw [h.flags i hi]
    exact hent
  rw [userPageIndex, h.find?_eq, hidx]
  simp [hflag]

def notePage (L : Layout) (m : Mem) (index : Nat) (page_vaddr flags : Word) : Mem :=
  let m := storeWord m (L.paddr .userPageCount 0) (userPageCount L m + 1)
  let m := storeWord m (L.paddr .userPageVaddrs (4 * index)) page_vaddr
  storeWord m (L.paddr .userPageFlags (4 * index)) flags

def addPage (L : Layout) (m : Mem) (index : Nat) (page_vaddr flags : Word) : Mem :=
  zeroBytes (notePage L m index page_vaddr flags) (L.paddr .userImagePages (4096 * index))
    pageSize

theorem userPageIndex_new (h : Registered L m ps) {page_vaddr flags : Word}
    (hidx : indexOf ps page_vaddr = none) (hroom : ps.length < 16) :
    userPageIndex L m page_vaddr flags true =
      (some ps.length, addPage L m ps.length page_vaddr flags) := by
  have hcount : (userPageCount L m == BitVec.ofNat 32 maxUserImagePages) = false := by
    rw [h.count, beq_eq_false_iff_ne]
    simp only [maxUserImagePages]
    bv_omega
  rw [userPageIndex, h.find?_eq, hidx]
  simp [hcount, h.count_toNat, addPage, notePage]

theorem notePage_frame (m : Mem) {index : Nat} (hi : index < 16) (page_vaddr flags : Word) :
    ChangedOnly (L.extents registryObjects) m (notePage L m index page_vaddr flags) := by
  have hsub : ∀ o, o ∈ registryObjects → L.extents [o] ⊆ L.extents registryObjects := by
    intro o ho
    apply L.extents_mono
    simpa using ho
  exact (((L.storeWord_frame m (by decide) _).mono (hsub .userPageCount (by decide))).trans
    ((L.storeWord_frame _ (by simp; omega) _).mono (hsub .userPageVaddrs (by decide)))).trans
    ((L.storeWord_frame _ (by simp; omega) _).mono (hsub .userPageFlags (by decide)))

theorem zeroPage_frame (m : Mem) {index : Nat} (hi : index < 16) :
    ChangedOnly (L.extents [.userImagePages]) m
      (zeroBytes m (L.paddr .userImagePages (4096 * index)) pageSize) := by
  apply L.fillBytes_frame
  rw [show pageSize.toNat = 4096 by decide]
  simp
  omega

theorem addPage_frame (m : Mem) {index : Nat} (hi : index < 16) (page_vaddr flags : Word) :
    ChangedOnly (L.extents pageObjects) m (addPage L m index page_vaddr flags) :=
  ((notePage_frame m hi page_vaddr flags).mono (L.extents_mono (by decide))).trans
    ((zeroPage_frame _ hi).mono (L.extents_mono (by decide)))

theorem addPage_registered (h : Registered L m ps) {page_vaddr flags : Word}
    (hnew : ∀ e ∈ ps, e.1 ≠ page_vaddr) (hroom : ps.length < 16) :
    Registered L (addPage L m ps.length page_vaddr flags) (ps ++ [(page_vaddr, flags)]) := by
  have hzero := fun m => zeroPage_frame (L := L) m hroom
  have hflags : ∀ m w, ChangedOnly (L.extents [.userPageFlags]) m
      (storeWord m (L.paddr .userPageFlags (4 * ps.length)) w) :=
    fun m w => L.storeWord_frame m (by simp; omega) w
  have hvaddrs : ∀ m w, ChangedOnly (L.extents [.userPageVaddrs]) m
      (storeWord m (L.paddr .userPageVaddrs (4 * ps.length)) w) :=
    fun m w => L.storeWord_frame m (by simp; omega) w
  have hcount : ∀ m w, ChangedOnly (L.extents [.userPageCount]) m
      (storeWord m (L.paddr .userPageCount 0) w) :=
    fun m w => L.storeWord_frame m (by decide) w
  refine ⟨?_, ?_, fun i hi => ?_, fun i hi => ?_, ?_⟩
  · simp only [userPageCount, addPage, notePage]
    rw [L.loadWord_frame (hzero _) (by decide) (by decide),
      L.loadWord_frame (hflags _ _) (by decide) (by decide),
      L.loadWord_frame (hvaddrs _ _) (by decide) (by decide), loadWord_storeWord_self]
    have hc := h.count
    rw [userPageCount] at hc
    rw [hc, List.length_append, BitVec.ofNat_add]
    rfl
  · rw [List.length_append, maxUserImagePages]
    simp
    omega
  · rw [List.length_append, List.length_singleton] at hi
    simp only [userPageVaddr, addPage, notePage]
    rw [L.loadWord_frame (hzero _) (by decide) (by simp; omega),
      L.loadWord_frame (hflags _ _) (by decide) (by simp; omega)]
    by_cases hlast : i = ps.length
    · subst hlast
      rw [loadWord_storeWord_self]
      simp
    · rw [L.loadWord_storeWord_of_ne _ (by simp; omega) (by simp; omega) (by omega),
        L.loadWord_frame (hcount _ _) (by decide) (by simp; omega)]
      have hv := h.vaddrs i (by omega)
      rw [userPageVaddr] at hv
      simpa [List.getElem_append_left (show i < ps.length by omega)] using hv
  · rw [List.length_append, List.length_singleton] at hi
    simp only [userPageFlag, addPage, notePage]
    rw [L.loadWord_frame (hzero _) (by decide) (by simp; omega)]
    by_cases hlast : i = ps.length
    · subst hlast
      rw [loadWord_storeWord_self]
      simp
    · rw [L.loadWord_storeWord_of_ne _ (by simp; omega) (by simp; omega) (by omega),
        L.loadWord_frame (hvaddrs _ _) (by decide) (by simp; omega),
        L.loadWord_frame (hcount _ _) (by decide) (by simp; omega)]
      have hv := h.flags i (by omega)
      rw [userPageFlag] at hv
      simpa [List.getElem_append_left (show i < ps.length by omega)] using hv
  · exact nodup_append_new h.nodup hnew

/-- A new page reads as zero, as an unregistered one does. -/
theorem addPage_userByte (m : Mem) (ps : List (Word × Word)) (page_vaddr flags : Word)
    (hroom : ps.length < 16) (v : Word) :
    userByte L (addPage L m ps.length page_vaddr flags) (ps ++ [(page_vaddr, flags)]) v =
      userByte L m ps v := by
  have hoff := Nat.mod_lt v.toNat (by omega : 0 < 4096)
  have hpage : ∀ j < 16, addPage L m ps.length page_vaddr flags
      (L.paddr .userImagePages (4096 * j + v.toNat % 4096)) =
      if j = ps.length then 0 else m (L.paddr .userImagePages (4096 * j + v.toNat % 4096)) := by
    intro j hj
    have hfill := fillPage_apply L (notePage L m ps.length page_vaddr flags) (fun _ => 0)
      hroom hj (show 0 + pageSize.toNat ≤ 4096 by decide) hoff
    rw [Nat.add_zero] at hfill
    rw [addPage, zeroBytes, hfill, show pageSize.toNat = 4096 by decide,
      L.byte_frame (notePage_frame m hroom page_vaddr flags) (by decide) (by simp; omega)]
    simp [hoff]
  cases hidx : indexOf ps (pageBase v) with
  | some i =>
      have hi := indexOf_lt hidx
      simp only [userByte, indexOf_append_of_some hidx, hidx]
      rw [hpage i (by omega), if_neg (by omega)]
  | none =>
      simp only [userByte, indexOf_append_of_none hidx, hidx]
      by_cases hp : page_vaddr = pageBase v
      · simp only [hp, if_true]
        rw [← hp, hpage _ hroom, if_pos rfl]
      · simp [hp]

/-- What registering pages does: the registry `ps'` is entered, and user memory reads
as before. -/
structure Prepared (L : Layout) (m : Mem) (ps : List (Word × Word)) (m' : Mem)
    (ps' : List (Word × Word)) : Prop where
  registered : Registered L m' ps'
  frame : ChangedOnly (L.extents pageObjects) m m'
  userByte : ∀ v, Hello.userByte L m' ps' v = Hello.userByte L m ps v

theorem Prepared.trans {m'' : Mem} {ps' ps'' : List (Word × Word)}
    (h : Prepared L m ps m' ps') (h' : Prepared L m' ps' m'' ps'') :
    Prepared L m ps m'' ps'' :=
  ⟨h'.registered, h.frame.trans h'.frame, fun v => (h'.userByte v).trans (h.userByte v)⟩

/-- `user_page_index` with `create` enters the page in the registry. -/
theorem userPageIndex_enter (h : Registered L m ps) {page_vaddr flags : Word}
    {ps' : List (Word × Word)}
    (hent : enter maxUserImagePages ps (page_vaddr, flags) = some ps') :
    ∃ i m', userPageIndex L m page_vaddr flags true = (some i, m') ∧ Prepared L m ps m' ps' := by
  cases hidx : indexOf ps page_vaddr with
  | some i =>
      refine ⟨i, m, h.userPageIndex_known hidx (by rw [hent]; exact Option.some_ne_none ps'), ?_⟩
      rw [enter, hidx] at hent
      dsimp only at hent
      split at hent
      · obtain rfl := Option.some.inj hent
        exact ⟨h, ChangedOnly.refl _ m, fun _ => rfl⟩
      · cases hent
  | none =>
      have hnew := indexOf_eq_none_iff.mp hidx
      rw [enter_of_new hnew] at hent
      split at hent
      · cases hent
      · rename_i hne
        have hle := h.length_le
        have hroom : ps.length < 16 := by
          rw [maxUserImagePages] at hne
          omega
        obtain rfl := Option.some.inj hent
        exact ⟨_, _, h.userPageIndex_new hidx hroom, h.addPage_registered hnew hroom,
          addPage_frame m hroom _ _, addPage_userByte m ps _ _ hroom⟩

end Registered

/-! ## `prepare_user_range` -/

def pagesFrom (page : Word) : Nat → List Word
  | 0 => []
  | n + 1 => page :: pagesFrom (page + pageSize) n

def rangePageCount (vaddr length : Word) : Nat :=
  (vaddr.toNat % 4096 + length.toNat + 4095) / 4096

def rangePages (vaddr length : Word) : List Word :=
  pagesFrom (pageBase vaddr) (rangePageCount vaddr length)

def rangeEntries (vaddr length flags : Word) : List (Word × Word) :=
  (rangePages vaddr length).map (fun page => (page, flags))

theorem mem_pagesFrom {page p : Word} {n : Nat} :
    p ∈ pagesFrom page n ↔ ∃ i < n, p = page + BitVec.ofNat 32 (4096 * i) := by
  induction n generalizing page with
  | zero => simp [pagesFrom]
  | succ n ih =>
      rw [pagesFrom, List.mem_cons, ih, pageSize]
      constructor
      · rintro (rfl | ⟨i, hi, rfl⟩)
        · exact ⟨0, by omega, by simp⟩
        · exact ⟨i + 1, by omega, by bv_omega⟩
      · rintro ⟨i, hi, rfl⟩
        cases i with
        | zero => exact Or.inl (by simp)
        | succ i => exact Or.inr ⟨i, by omega, by bv_omega⟩

/-- A page is prepared for a range exactly when some address of the range is in it. -/
theorem mem_rangePages {vaddr length : Word} (hlen : 0 < length.toNat)
    (hend : vaddr.toNat + length.toNat ≤ 0x7ff000) {p : Word} :
    p ∈ rangePages vaddr length ↔
      ∃ x : Word, vaddr.toNat ≤ x.toNat ∧ x.toNat < vaddr.toNat + length.toNat ∧
        pageBase x = p := by
  have hbase := pageBase_toNat vaddr
  rw [rangePages, rangePageCount, mem_pagesFrom]
  constructor
  · rintro ⟨i, hi, rfl⟩
    -- the first address of the range in page `i`
    refine ⟨BitVec.ofNat 32 (max vaddr.toNat (vaddr.toNat / 4096 * 4096 + 4096 * i)), ?_, ?_, ?_⟩
    · rw [BitVec.toNat_ofNat, Nat.mod_eq_of_lt (by omega)]
      omega
    · rw [BitVec.toNat_ofNat, Nat.mod_eq_of_lt (by omega)]
      omega
    · apply BitVec.eq_of_toNat_eq
      rw [pageBase_toNat, BitVec.toNat_ofNat, Nat.mod_eq_of_lt (by omega), BitVec.toNat_add, hbase,
        BitVec.toNat_ofNat]
      omega
  · rintro ⟨x, hlow, hhigh, rfl⟩
    refine ⟨x.toNat / 4096 - vaddr.toNat / 4096, by omega, ?_⟩
    apply BitVec.eq_of_toNat_eq
    rw [pageBase_toNat, BitVec.toNat_add, hbase, BitVec.toNat_ofNat]
    omega

namespace Registered

variable {L} {m : Mem} {ps : List (Word × Word)}

theorem prepareUserPages_spec (h : Registered L m ps) {last flags page : Word} {n fuel : Nat}
    (hfuel : n < fuel) (hlast : last.toNat ≤ page.toNat + 4096 * n)
    (hpages : ∀ i < n, page.toNat + 4096 * i < last.toNat)
    (hwrap : page.toNat + 4096 * n < 2 ^ 32) :
    match ((pagesFrom page n).map (fun page => (page, flags))).foldlM
      (enter maxUserImagePages) ps with
    | some ps' => ∃ m', prepareUserPages L last flags fuel m page = some (true, m') ∧
        Prepared L m ps m' ps'
    | none => ∃ m', prepareUserPages L last flags fuel m page = some (false, m') ∧
        ChangedOnly (L.extents pageObjects) m m' := by
  induction n generalizing m ps page fuel with
  | zero =>
      obtain ⟨fuel, rfl⟩ : ∃ f, fuel = f + 1 := ⟨fuel - 1, by omega⟩
      have hstop : ¬ page < last := by
        rw [BitVec.lt_def]
        omega
      refine ⟨m, ?_, h, ChangedOnly.refl _ m, fun _ => rfl⟩
      rw [prepareUserPages, if_neg hstop]
  | succ n ih =>
      obtain ⟨fuel, rfl⟩ : ∃ f, fuel = f + 1 := ⟨fuel - 1, by omega⟩
      have hgo : page < last := by
        rw [BitVec.lt_def]
        exact hpages 0 (by omega)
      have hnext : (page + pageSize).toNat = page.toNat + 4096 := by
        rw [pageSize]
        bv_omega
      rw [pagesFrom, List.map_cons, List.foldlM_cons, prepareUserPages, if_pos hgo]
      cases hent : enter maxUserImagePages ps (page, flags) with
      | none =>
          rw [h.userPageIndex_refused hent]
          exact ⟨m, rfl, ChangedOnly.refl _ m⟩
      | some ps1 =>
          obtain ⟨i, m1, hindex, hprep⟩ := h.userPageIndex_enter hent
          have hrest := ih hprep.registered (show n < fuel by omega)
            (show last.toNat ≤ (page + pageSize).toNat + 4096 * n by omega)
            (fun i hi => by have := hpages (i + 1) (by omega); omega) (by omega)
          rw [hindex]
          change match ((pagesFrom (page + pageSize) n).map (fun page => (page, flags))).foldlM
            (enter maxUserImagePages) ps1 with | some ps' => _ | none => _
          split at hrest
          · obtain ⟨m', hrun, hprep'⟩ := hrest
            exact ⟨m', hrun, hprep.trans hprep'⟩
          · obtain ⟨m', hrun, hframe⟩ := hrest
            exact ⟨m', hrun, hprep.frame.trans hframe⟩

theorem prepareUserRange_spec (h : Registered L m ps) {vaddr length : Word} (flags : Word)
    (hend : vaddr.toNat + length.toNat ≤ 0x7ff000) :
    match (rangeEntries vaddr length flags).foldlM (enter maxUserImagePages) ps with
    | some ps' => ∃ m', prepareUserRange L m vaddr length flags = some (true, m') ∧
        Prepared L m ps m' ps'
    | none => ∃ m', prepareUserRange L m vaddr length flags = some (false, m') ∧
        ChangedOnly (L.extents pageObjects) m m' := by
  have hbase := pageBase_toNat vaddr
  have hlast : (vaddr + length).toNat = vaddr.toNat + length.toNat := by bv_omega
  have hn : rangePageCount vaddr length = (vaddr.toNat % 4096 + length.toNat + 4095) / 4096 := rfl
  exact h.prepareUserPages_spec (by omega) (by omega) (fun i hi => by omega) (by omega)

end Registered

/-! ## `write_user_range` -/

def sourceByte (image : Image) (source : Option Word) (k : Nat) : Byte :=
  match source with
  | none => 0
  | some source => image.bytes (source + BitVec.ofNat 32 k)

theorem sourceByte_map_add (image : Image) (source : Option Word) (c : Word) (k : Nat) :
    sourceByte image (source.map (· + c)) k = sourceByte image source (c.toNat + k) := by
  cases source with
  | none => rfl
  | some source =>
      simp only [sourceByte, Option.map_some, BitVec.ofNat_add, BitVec.ofNat_toNat,
        BitVec.setWidth_eq, BitVec.add_assoc]

theorem copyBytes_eq_some (image : Image) (m : Mem) (destination : Word) {source : Word} {n : Nat}
    (h : source.toNat + n ≤ image.size.toNat) :
    copyBytes image m destination source n =
      some (fillBytes m destination (sourceByte image (some source)) n) := by
  have hsize := image.size.isLt
  induction n with
  | zero => rfl
  | succ n ih =>
      rw [copyBytes, ih (by omega)]
      have hbyte : image.byte (source + BitVec.ofNat 32 n) =
          some (image.bytes (source + BitVec.ofNat 32 n)) := by
        apply image.byte_eq_some
        bv_omega
      simp [hbyte, fillBytes, sourceByte]

/-- The first `n` bytes from `vaddr` are written with `f`; the rest of user memory, the
pages not in use and everything else are as before. -/
structure Written (L : Layout) (m : Mem) (ps : List (Word × Word)) (vaddr : Word)
    (f : Nat → Byte) (n : Nat) (m' : Mem) : Prop where
  userByte : ∀ v, Hello.userByte L m' ps v =
    if (v - vaddr).toNat < n then f (v - vaddr).toNat else Hello.userByte L m ps v
  spare : ∀ i k, ps.length ≤ i → i < 16 → k < 4096 →
    m' (L.paddr .userImagePages (4096 * i + k)) = m (L.paddr .userImagePages (4096 * i + k))
  frame : ChangedOnly (L.extents [.userImagePages]) m m'

theorem Written.refl (L : Layout) (m : Mem) (ps : List (Word × Word)) (vaddr : Word)
    (f : Nat → Byte) : Written L m ps vaddr f 0 m :=
  ⟨fun v => by rw [if_neg (Nat.not_lt_zero _)], fun _ _ _ _ _ => rfl, ChangedOnly.refl _ m⟩

/-- Writing a chunk and then what follows it. -/
theorem Written.append {L : Layout} {m m1 m2 : Mem} {ps : List (Word × Word)} {vaddr : Word}
    {f g : Nat → Byte} {c n : Nat} (h : Written L m ps vaddr f c m1)
    (h' : Written L m1 ps (vaddr + BitVec.ofNat 32 c) g n m2) (hsum : c + n < 2 ^ 32)
    (hfg : ∀ k < n, g k = f (c + k)) : Written L m ps vaddr f (c + n) m2 := by
  refine ⟨fun v => ?_, fun i k hi hi' hk => (h'.spare i k hi hi' hk).trans (h.spare i k hi hi' hk),
    h.frame.trans h'.frame⟩
  rw [h'.userByte, h.userByte]
  by_cases hc : (v - vaddr).toNat < c
  · have hlater : ¬ (v - (vaddr + BitVec.ofNat 32 c)).toNat < n := by bv_omega
    rw [if_neg hlater, if_pos hc, if_pos (by omega)]
  · have hoff : (v - (vaddr + BitVec.ofNat 32 c)).toNat = (v - vaddr).toNat - c := by bv_omega
    by_cases hn : (v - vaddr).toNat < c + n
    · rw [if_pos hn, if_pos (by omega), hfg _ (by omega), hoff]
      congr 1
      omega
    · rw [if_neg hn, if_neg (by omega), if_neg hc]

/-- The loop stops after `n` bytes, at the end of the range or at its first unregistered
page, and has written exactly the part before that. -/
structure WrittenUntil (L : Layout) (m : Mem) (ps : List (Word × Word)) (vaddr : Word)
    (length : Nat) (f : Nat → Byte) (b : Bool) (n : Nat) (m' : Mem) : Prop where
  le : n ≤ length
  known : ∀ k < n, indexOf ps (pageBase (vaddr + BitVec.ofNat 32 k)) ≠ none
  done : b = true ↔ n = length
  stop : b = false → indexOf ps (pageBase (vaddr + BitVec.ofNat 32 n)) = none
  written : Written L m ps vaddr f n m'

theorem WrittenUntil.prepend {L : Layout} {m m1 m2 : Mem} {ps : List (Word × Word)}
    {vaddr : Word} {length c n : Nat} {f g : Nat → Byte} {b : Bool}
    (hchunk : Written L m ps vaddr f c m1)
    (h : WrittenUntil L m1 ps (vaddr + BitVec.ofNat 32 c) (length - c) g b n m2)
    (hc : c ≤ length) (hlength : length < 2 ^ 32)
    (hpages : ∀ k < c, indexOf ps (pageBase (vaddr + BitVec.ofNat 32 k)) ≠ none)
    (hfg : ∀ k < n, g k = f (c + k)) :
    WrittenUntil L m ps vaddr length f b (c + n) m2 := by
  have hle := h.le
  have hshift : ∀ k : Nat, vaddr + BitVec.ofNat 32 c + BitVec.ofNat 32 k =
      vaddr + BitVec.ofNat 32 (c + k) := by
    intro k
    rw [BitVec.ofNat_add, BitVec.add_assoc]
  refine ⟨by omega, fun k hk => ?_, ?_, fun hb => ?_,
    hchunk.append h.written (by omega) hfg⟩
  · by_cases hfirst : k < c
    · exact hpages k hfirst
    · have hlater := h.known (k - c) (by omega)
      rwa [hshift, show c + (k - c) = k by omega] at hlater
  · rw [h.done]
    omega
  · rw [← hshift]
    exact h.stop hb

namespace Registered

variable {L} {m : Mem} {ps : List (Word × Word)}

theorem fillChunk_written (h : Registered L m ps) {vaddr : Word} {i n : Nat}
    (hidx : indexOf ps (pageBase vaddr) = some i) (hn : vaddr.toNat % 4096 + n ≤ 4096)
    (f : Nat → Byte) :
    Written L m ps vaddr f n
      (fillBytes m (L.paddr .userImagePages (4096 * i + vaddr.toNat % 4096)) f n) := by
  have hlen := h.length_le
  have hi := indexOf_lt hidx
  refine ⟨fun v => ?_, fun j k hj hj' hk => ?_, L.fillBytes_frame m (by simp; omega) f⟩
  swap
  · rw [fillPage_apply L m f (by omega) hj' hn hk, if_neg (by omega)]
  have hoff := Nat.mod_lt v.toNat (by omega : 0 < 4096)
  have hrange := sub_lt_iff_same_page (v := v) hn
  cases hv : indexOf ps (pageBase v) with
  | some j =>
      have hj := indexOf_lt hv
      have hsame : j = i ↔ pageBase v = pageBase vaddr := by
        constructor
        · rintro rfl
          exact indexOf_inj hv hidx
        · intro heq
          rw [heq, hidx] at hv
          exact (Option.some.inj hv).symm
      simp only [userByte, hv]
      rw [fillPage_apply L m f (by omega) (by omega) hn hoff]
      rw [← hsame] at hrange
      by_cases hin : (v - vaddr).toNat < n
      · rw [if_pos hin, if_pos (hrange.mp hin)]
        have hdiff : (v - vaddr).toNat = v.toNat % 4096 - vaddr.toNat % 4096 := by
          obtain ⟨hpage, hlow, hhigh⟩ := hrange.mp hin
          rw [hsame, pageBase_eq_iff] at hpage
          rw [BitVec.toNat_sub_of_le (by rw [BitVec.le_def]; omega)]
          omega
        rw [hdiff]
      · rw [if_neg hin, if_neg (mt hrange.mpr hin)]
  | none =>
      simp only [userByte, hv]
      rw [if_neg]
      intro hin
      rw [(hrange.mp hin).1, hidx] at hv
      cases hv

def chunkSize (vaddr length : Word) : Word :=
  let chunk := pageSize - (vaddr - (vaddr &&& ptePageMask))
  if length < chunk then length else chunk

theorem chunkSize_bounds (vaddr : Word) {length : Word} (hpos : 0 < length.toNat) :
    0 < (chunkSize vaddr length).toNat ∧ (chunkSize vaddr length).toNat ≤ length.toNat ∧
      vaddr.toNat % 4096 + (chunkSize vaddr length).toNat ≤ 4096 := by
  have hoff : (vaddr - (vaddr &&& ptePageMask)).toNat = vaddr.toNat % 4096 :=
    sub_pageBase_toNat vaddr
  have hchunk : (pageSize - (vaddr - (vaddr &&& ptePageMask))).toNat =
      4096 - vaddr.toNat % 4096 := by
    rw [pageSize]
    bv_omega
  simp only [chunkSize, BitVec.lt_def, hchunk]
  split
  · omega
  · omega

theorem writeUserPages_chunk (h : Registered L m ps) (image : Image) {fuel : Nat}
    {vaddr length : Word} {source : Option Word} (hpos : 0 < length.toNat)
    (hsource : ∀ s, source = some s → s.toNat + length.toNat ≤ image.size.toNat) {i : Nat}
    (hidx : indexOf ps (pageBase vaddr) = some i) :
    writeUserPages L image (fuel + 1) m vaddr source length =
      writeUserPages L image fuel
        (fillBytes m (L.paddr .userImagePages (4096 * i + vaddr.toNat % 4096))
          (sourceByte image source) (chunkSize vaddr length).toNat)
        (vaddr + chunkSize vaddr length) (source.map (· + chunkSize vaddr length))
        (length - chunkSize vaddr length) := by
  have hmask : vaddr &&& ptePageMask = pageBase vaddr := rfl
  have hzero : length ≠ 0 := by bv_omega
  have hc : (chunkSize vaddr length).toNat ≤ length.toNat := (chunkSize_bounds vaddr hpos).2.1
  rw [writeUserPages, if_neg hzero]
  simp only [hmask, h.userPageIndex_find, hidx]
  rw [sub_pageBase_toNat]
  cases source with
  | none => rfl
  | some source =>
      have hsrc := hsource source rfl
      have hcopy := copyBytes_eq_some image m
        (L.paddr .userImagePages (4096 * i + vaddr.toNat % 4096))
        (show source.toNat + (chunkSize vaddr length).toNat ≤ image.size.toNat by omega)
      simp only [chunkSize, hmask] at hcopy
      dsimp only
      rw [hcopy]
      rfl

theorem writeUserPages_spec (h : Registered L m ps) (image : Image) {fuel : Nat}
    {vaddr length : Word} {source : Option Word} (hfuel : length.toNat < fuel)
    (hsource : ∀ s, source = some s → s.toNat + length.toNat ≤ image.size.toNat) :
    ∃ b m' n, writeUserPages L image fuel m vaddr source length = some (b, m') ∧
      WrittenUntil L m ps vaddr length.toNat (sourceByte image source) b n m' := by
  induction fuel generalizing m vaddr length source with
  | zero => omega
  | succ fuel ih =>
      by_cases hzero : length = 0
      · refine ⟨true, m, 0, by rw [writeUserPages, if_pos hzero], Nat.zero_le _,
          fun k hk => absurd hk (Nat.not_lt_zero k), by simp [hzero], by simp,
          Written.refl L m ps vaddr _⟩
      have hpos : 0 < length.toNat := by bv_omega
      have hmask : vaddr &&& ptePageMask = pageBase vaddr := rfl
      cases hidx : indexOf ps (pageBase vaddr) with
      | none =>
          refine ⟨false, m, 0, ?_, Nat.zero_le _, fun k hk => absurd hk (Nat.not_lt_zero k),
            ?_, ?_, Written.refl L m ps vaddr _⟩
          · simp only [writeUserPages, if_neg hzero, hmask, h.userPageIndex_find, hidx]
          · simp
            omega
          · simpa using hidx
      | some i =>
          obtain ⟨hcpos, hcle, hcpage⟩ := chunkSize_bounds vaddr hpos
          rw [h.writeUserPages_chunk image hpos hsource hidx]
          have hchunk := h.fillChunk_written hidx hcpage (sourceByte image source)
          generalize hc : chunkSize vaddr length = c at *
          have hsource' : ∀ s, source.map (· + c) = some s →
              s.toNat + (length - c).toNat ≤ image.size.toNat := by
            intro s hs
            obtain ⟨s0, hs0, rfl⟩ := Option.map_eq_some_iff.mp hs
            have hle := hsource s0 hs0
            have hsize := image.size.isLt
            bv_omega
          have hlen : (length - c).toNat = length.toNat - c.toNat := by bv_omega
          have hstart : vaddr + c = vaddr + BitVec.ofNat 32 c.toNat := by
            rw [BitVec.ofNat_toNat, BitVec.setWidth_eq]
          obtain ⟨b, m', n, hrun, hrest⟩ :=
            @ih _ (h.frame hchunk.frame (by decide)) (vaddr + c) (length - c)
              (source.map (· + c)) (by omega) hsource'
          rw [hlen, hstart] at hrest
          refine ⟨b, m', c.toNat + n, hrun, .prepend hchunk hrest hcle length.isLt (fun k hk => ?_)
            (fun k _ => sourceByte_map_add image source c k)⟩
          · -- the chunk lies in the page of `vaddr`
            have hpage := (sub_lt_iff_same_page (v := vaddr + BitVec.ofNat 32 k) hcpage).mp
              (by bv_omega)
            rw [hpage.1, hidx]
            exact Option.some_ne_none i

theorem writeUserRange_spec (h : Registered L m ps) (image : Image) (vaddr length : Word)
    (source : Option Word)
    (hsource : ∀ s, source = some s → s.toNat + length.toNat ≤ image.size.toNat) :
    ∃ b m' n, writeUserRange L image m vaddr source length = some (b, m') ∧
      WrittenUntil L m ps vaddr length.toNat (sourceByte image source) b n m' :=
  h.writeUserPages_spec image (Nat.lt_succ_self _) hsource

theorem writeUserRange_full (h : Registered L m ps) (image : Image) (vaddr length : Word)
    (source : Option Word)
    (hsource : ∀ s, source = some s → s.toNat + length.toNat ≤ image.size.toNat)
    (hpages : ∀ k < length.toNat, indexOf ps (pageBase (vaddr + BitVec.ofNat 32 k)) ≠ none) :
    ∃ m', writeUserRange L image m vaddr source length = some (true, m') ∧
      Written L m ps vaddr (sourceByte image source) length.toNat m' := by
  obtain ⟨b, m', n, hrun, hend⟩ := h.writeUserRange_spec image vaddr length source hsource
  have hle := hend.le
  cases b with
  | false =>
      have hlt : n < length.toNat := by
        by_contra hge
        exact absurd (hend.done.mpr (by omega)) (by decide)
      exact absurd (hend.stop rfl) (hpages n hlt)
  | true =>
      obtain rfl := hend.done.mp rfl
      exact ⟨m', hrun, hend.written⟩

end Registered

end Minemu.Hello
