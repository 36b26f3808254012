import EdgeComputing.Sal.RecoveryFs

/-!
The names under which clients are stored. A name is cut into components that the reader puts
together again, and it declares its own length.
-/

namespace EdgeComputing.Sal

open List Library

theorem segments_flatten {fuel : Nat} {t : Text} (h : t.length ≤ fuel) :
    (segments fuel t).flatten = t := by
  induction fuel generalizing t with
  | zero =>
    have ht : t = [] := eq_nil_of_length_eq_zero (by omega)
    simp [segments, ht]
  | succ fuel ih =>
    unfold segments
    split_ifs with hnil hshort
    · simp [hnil]
    · simp
    · have hdrop : (t.drop nameMax).length ≤ fuel := by
        rw [length_drop]
        have hpos : 0 < nameMax := by decide
        omega
      rw [flatten_cons, ih hdrop, take_append_drop]

theorem recovPath_flatten (tag : Text) : (recovPath tag).flatten = tag :=
  segments_flatten (Nat.le_refl _)

theorem mem_segments {fuel : Nat} {t seg : Text} (h : seg ∈ segments fuel t) :
    seg ≠ [] ∧ (seg.length = nameMax ∨ seg <:+ t) ∧ ∀ b ∈ seg, b ∈ t := by
  induction fuel generalizing t with
  | zero => cases h
  | succ fuel ih =>
    unfold segments at h
    split_ifs at h with hnil hshort
    · cases h
    · obtain rfl := mem_singleton.1 h
      exact ⟨hnil, .inr (suffix_refl _), fun b hb => hb⟩
    · rcases mem_cons.1 h with rfl | h
      · have hlength : (t.take nameMax).length = nameMax := by
          rw [length_take]
          omega
        refine ⟨?_, .inl hlength, fun b hb => mem_of_mem_take hb⟩
        rintro hempty
        rw [hempty] at hlength
        exact absurd hlength (by decide)
      · obtain ⟨hne, hend, hmem⟩ := ih h
        refine ⟨hne, ?_, fun b hb => mem_of_mem_drop (hmem b hb)⟩
        exact hend.imp_right fun hsuffix => hsuffix.trans (drop_suffix _ _)

theorem ascii_digit {c : Char} (h : c.isDigit = true) :
    (ascii c).toNat = c.toNat ∧ isdigit (ascii c) = true := by
  simp only [Char.isDigit, Bool.and_eq_true, decide_eq_true_eq] at h
  have hlow : 48 ≤ c.toNat := h.1
  have hhigh : c.toNat ≤ 57 := h.2
  have hnat : (ascii c).toNat = c.toNat := by
    have hmod : (ascii c).toNat = c.toNat % 256 := UInt32.toNat_toUInt8 c.val
    omega
  refine ⟨hnat, ?_⟩
  simp only [isdigit, Bool.and_eq_true, decide_eq_true_eq, UInt8.le_iff_toNat_le, hnat]
  exact ⟨hlow, hhigh⟩

variable {b : UInt8}

theorem isdigit_decimal {n : Nat} (h : b ∈ decimal n) : isdigit b = true := by
  obtain ⟨c, hc, rfl⟩ := mem_map.1 h
  exact (ascii_digit (Nat.isDigit_of_mem_toDigits (by decide) (by decide) hc)).2

theorem isdigit_bounds (h : isdigit b = true) : 48 ≤ b.toNat ∧ b.toNat ≤ 57 := by
  simp only [isdigit, Bool.and_eq_true, decide_eq_true_eq, UInt8.le_iff_toNat_le] at h
  exact h

theorem isdigit_ne {b c : UInt8} (h : isdigit b = true) (hc : isdigit c = false) : b ≠ c := by
  rintro rfl
  rw [h] at hc
  cases hc

theorem isprint_of_isdigit (h : isdigit b = true) : isprint b = true := by
  have hb := isdigit_bounds h
  simp only [isprint, Bool.and_eq_true, decide_eq_true_eq, UInt8.le_iff_toNat_le]
  exact ⟨show 32 ≤ b.toNat by omega, show b.toNat ≤ 126 by omega⟩

theorem of_all_bytes {p : UInt8 → Bool}
    (h : ((List.range 256).all fun n => p (UInt8.ofNat n)) = true) (b : UInt8) : p b = true := by
  have hb := all_eq_true.1 h b.toNat (mem_range.2 b.toNat_lt)
  rwa [UInt8.ofNat_toNat] at hb

theorem isprint_hexByte {b d : UInt8} (h : d ∈ hexByte b) : isprint d = true ∧ d ≠ ascii '/' := by
  have hb := of_all_bytes (p := fun b => (hexByte b).all fun d => isprint d && d != ascii '/')
    (by decide +kernel) b
  simpa using all_eq_true.1 hb d h

theorem isprint_opaqueText {value : List UInt8} (h : b ∈ opaqueText value) :
    isprint b = true ∧ b ≠ ascii '/' := by
  unfold opaqueText at h
  split_ifs at h with hall
  · have hb := all_eq_true.1 hall b h
    simpa using hb
  · rcases mem_cons.1 h with rfl | h
    · decide
    · rcases mem_cons.1 h with rfl | h
      · decide
      · obtain ⟨byte, -, hbyte⟩ := mem_flatMap.1 h
        exact isprint_hexByte hbyte

variable {c : RecovClient}

theorem isprint_strClientAddr (h : b ∈ c.strClientAddr) : isprint b = true ∧ b ≠ ascii '/' := by
  unfold RecovClient.strClientAddr at h
  split at h
  · rename_i host _
    obtain ⟨hprint, hslash, -⟩ := host.printable b h
    exact ⟨hprint, hslash⟩
  · have hall : ("(unknown)".toList.map ascii).all (fun b => isprint b && b != ascii '/') = true := by
      decide +kernel
    simpa using all_eq_true.1 hall b h

theorem isprint_clidName (h : b ∈ clidName c.strClientAddr (opaqueText c.clientVal.bytes)) :
    isprint b = true ∧ b ≠ ascii '/' := by
  simp only [clidName, mem_append, mem_cons, not_mem_nil, or_false] at h
  rcases h with h | rfl | rfl | h | rfl | h | rfl
  · exact isprint_strClientAddr h
  · decide
  · decide
  · have hdigit := isdigit_decimal h
    exact ⟨isprint_of_isdigit hdigit, isdigit_ne hdigit (by decide)⟩
  · decide
  · exact isprint_opaqueText h
  · decide

theorem strchr_append {s ptr : Text} {c : UInt8} (h : strchr s c = some ptr) (u : Text) :
    strchr (s ++ u) c = some (ptr ++ u) := by
  unfold strchr at h ⊢
  rw [dropWhile_append]
  cases hdrop : s.dropWhile (· ≠ c) with
  | nil =>
    rw [hdrop] at h
    cases h
  | cons b rest =>
    rw [hdrop] at h
    cases h
    rfl

theorem strchr_of_notMem {s rest : Text} {c : UInt8} (h : c ∉ s) :
    strchr (s ++ c :: rest) c = some (c :: rest) := by
  have hdrop : (s ++ c :: rest).dropWhile (· ≠ c) = c :: rest := by
    rw [dropWhile_append_of_pos]
    · simp
    · intro b hb
      simpa using fun heq : b = c => h (heq ▸ hb)
  simp only [strchr, hdrop]

theorem strchr_length_le {s ptr : Text} {c : UInt8} (h : strchr s c = some ptr) :
    0 < ptr.length ∧ ptr.length ≤ s.length := by
  unfold strchr at h
  have hlength := (dropWhile_suffix (l := s) (fun b => decide (b ≠ c))).length_le
  split at h
  · cases h
  · rename_i b rest hdrop
    cases h
    rw [hdrop] at hlength
    exact ⟨by simp, hlength⟩

theorem strchr_head {s ptr : Text} {c : UInt8} (h : strchr s c = some ptr) :
    ∃ rest, ptr = c :: rest := by
  unfold strchr at h
  split at h
  · cases h
  · rename_i b rest hdrop
    cases h
    have hhead := head_dropWhile_not (fun b => decide (b ≠ c)) (l := s)
      (by rw [hdrop]; simp)
    simp only [hdrop, head_cons, decide_eq_false_iff_not, not_not] at hhead
    exact ⟨rest, by rw [hhead]⟩

theorem digitsValue_append {s : Text} (hs : ∀ d ∈ s, isdigit d = true) (hb : isdigit b = false)
    (u : Text) : digitsValue (s ++ b :: u) = s.foldl (fun n b => 10 * n + (b.toNat - 48)) 0 := by
  unfold digitsValue
  rw [takeWhile_append_of_pos hs, takeWhile_cons_of_neg (by simp [hb]), append_nil]

theorem foldl_decimal (n : Nat) : (decimal n).foldl (fun n b => 10 * n + (b.toNat - 48)) 0 = n := by
  have hfold : ∀ (cs : List Char) (start : Nat), (∀ c ∈ cs, c.isDigit = true) →
      (cs.map ascii).foldl (fun n b => 10 * n + (b.toNat - 48)) start =
        cs.foldl (fun sofar c => 10 * sofar + (c.toNat - '0'.toNat)) start := by
    intro cs
    induction cs with
    | nil => exact fun start _ => rfl
    | cons c cs ih =>
      intro start hdigits
      rw [map_cons, foldl_cons, foldl_cons, (ascii_digit (hdigits c mem_cons_self)).1]
      exact ih _ fun d hd => hdigits d (mem_cons_of_mem c hd)
  have hdigits : ∀ c ∈ Nat.toDigits 10 n, c.isDigit = true :=
    fun c hc => Nat.isDigit_of_mem_toDigits (by decide) (by decide) hc
  calc (decimal n).foldl (fun n b => 10 * n + (b.toNat - 48)) 0
      = (Nat.toDigits 10 n).foldl (fun sofar c => 10 * sofar + (c.toNat - '0'.toNat)) 0 :=
        hfold _ 0 hdigits
    _ = Nat.ofDigitChars 10 (Nat.toDigits 10 n) 0 := Nat.ofDigitChars_eq_foldl.symm
    _ = n := Nat.ofDigitChars_toDigits (by decide) (by decide)

theorem decimal_ne_nil (n : Nat) : decimal n ≠ [] := by
  simp [decimal, Nat.toDigits_ne_nil]

theorem atoi_decimal (n : Nat) : atoi (decimal n ++ [ascii ':']) = n := by
  have hdigits : ∀ d ∈ decimal n, isdigit d = true := fun d => isdigit_decimal
  have hvalue := digitsValue_append hdigits (b := ascii ':') (by decide) []
  rw [foldl_decimal] at hvalue
  obtain ⟨b, rest, heq⟩ := exists_cons_of_ne_nil (decimal_ne_nil n)
  rw [heq] at hdigits hvalue ⊢
  have hb := hdigits b mem_cons_self
  have hspace : isspace b = false := by
    have hbounds := isdigit_bounds hb
    simp only [isspace, Bool.or_eq_false_iff, Bool.and_eq_false_imp, decide_eq_false_iff_not,
      decide_eq_true_eq, UInt8.le_iff_toNat_le, ← UInt8.toNat_inj]
    exact ⟨fun h => absurd hbounds.1 (by rw [h]; decide),
      fun _ h => absurd (Nat.le_trans hbounds.1 h) (by decide)⟩
  unfold atoi
  rw [cons_append, dropWhile_cons_of_neg (by simp [hspace])]
  dsimp only
  rw [if_neg (isdigit_ne hb (by decide)), if_neg (isdigit_ne hb (by decide))]
  exact congrArg Int.ofNat hvalue

structure Declares (s ptr ptr2 : Text) : Prop where
  paren : strchr s (ascii '(') = some ptr
  colon : strchr ptr (ascii ':') = some ptr2

variable {s ptr ptr2 : Text}

theorem Declares.append (h : Declares s ptr ptr2) (u : Text) :
    Declares (s ++ u) (ptr ++ u) (ptr2 ++ u) :=
  ⟨strchr_append h.paren u, strchr_append h.colon u⟩

theorem Declares.unique {s ptr ptr2 ptr' ptr2' : Text} (h : Declares s ptr ptr2)
    (h' : Declares s ptr' ptr2') : ptr = ptr' ∧ ptr2 = ptr2' := by
  have hptr : ptr = ptr' := Option.some_inj.1 (h.paren.symm.trans h'.paren)
  subst hptr
  exact ⟨rfl, Option.some_inj.1 (h.colon.symm.trans h'.colon)⟩

theorem Declares.length_lt (h : Declares s ptr ptr2) : ptr2.length < ptr.length := by
  obtain ⟨rest, rfl⟩ := strchr_head h.paren
  have hcolon := h.colon
  unfold strchr at hcolon
  rw [dropWhile_cons_of_pos (by decide)] at hcolon
  exact Nat.lt_succ_of_le (strchr_length_le (s := rest) hcolon).2

def lengthField (ptr ptr2 : Text) : Text := (ptr.drop 1).take (ptr.length - ptr2.length - 1 + 1)

theorem Declares.lengthField_append (h : Declares s ptr ptr2) (u : Text) :
    lengthField (ptr ++ u) (ptr2 ++ u) = lengthField ptr ptr2 := by
  have hpos := (strchr_length_le h.colon).1
  have hlt := h.length_lt
  unfold lengthField
  rw [length_append, length_append, Nat.add_sub_add_right,
    drop_append_of_le_length (by omega), take_append_of_le_length]
  rw [length_drop]
  omega

theorem clidFormat_complete_iff {s : Text} :
    clidFormat s = .complete ↔ s.length + 1 < pathMax ∧ ∃ ptr ptr2, Declares s ptr ptr2 ∧
      ptr.length - ptr2.length - 1 < 9 ∧ (ptr2.length : Int) = atoi (lengthField ptr ptr2) + 2 ∧
      ptr2.getLast? = some (ascii ')') := by
  unfold clidFormat
  constructor
  · intro h
    split_ifs at h with hlong
    split at h
    · cases h
    · rename_i ptr hparen
      split at h
      · cases h
      · rename_i ptr2 hcolon
        dsimp only at h
        split_ifs at h with hdigits hlength
        exact ⟨by omega, ptr, ptr2, ⟨hparen, hcolon⟩, by omega, hlength.1, hlength.2⟩
  · rintro ⟨hlong, ptr, ptr2, hdeclares, hdigits, hlength, hlast⟩
    rw [if_neg (by omega), hdeclares.paren]
    dsimp only
    rw [hdeclares.colon]
    dsimp only
    rw [if_neg (by omega), if_pos ⟨hlength, hlast⟩]

theorem complete_append {s u ptr ptr2 : Text} (hs : clidFormat s = .complete)
    (hdeclares : Declares (s ++ u) ptr ptr2)
    (hlength : (ptr2.length : Int) = atoi (lengthField ptr ptr2) + 2) : u = [] := by
  obtain ⟨-, ptr', ptr2', hdeclares', -, hlength', -⟩ := clidFormat_complete_iff.1 hs
  obtain ⟨rfl, rfl⟩ := hdeclares.unique (hdeclares'.append u)
  rw [hdeclares'.lengthField_append u, ← hlength', length_append] at hlength
  exact eq_nil_of_length_eq_zero (by omega)

theorem clidName_declares {addr : Text} (h : ascii '(' ∉ addr) (cidstr : Text) :
    Declares (clidName addr cidstr)
      (ascii '(' :: (decimal cidstr.length ++ ascii ':' :: (cidstr ++ [ascii ')'])))
      (ascii ':' :: (cidstr ++ [ascii ')'])) where
  paren := by
    have happend : clidName addr cidstr = (addr ++ [ascii '-']) ++
        ascii '(' :: (decimal cidstr.length ++ ascii ':' :: (cidstr ++ [ascii ')'])) := by
      simp [clidName]
    rw [happend]
    apply strchr_of_notMem
    rw [mem_append, not_or]
    exact ⟨h, by decide⟩
  colon := by
    have hnot : ascii ':' ∉ ascii '(' :: decimal cidstr.length := by
      rw [mem_cons, not_or]
      exact ⟨by decide, fun hmem => absurd (isdigit_decimal hmem) (by decide)⟩
    rw [← cons_append]
    exact strchr_of_notMem hnot

theorem clidName_lengthField (cidstr : Text) :
    lengthField (ascii '(' :: (decimal cidstr.length ++ ascii ':' :: (cidstr ++ [ascii ')'])))
      (ascii ':' :: (cidstr ++ [ascii ')'])) = decimal cidstr.length ++ [ascii ':'] := by
  unfold lengthField
  rw [drop_one, tail_cons]
  have hlength : (ascii '(' :: (decimal cidstr.length ++ ascii ':' ::
      (cidstr ++ [ascii ')']))).length - (ascii ':' :: (cidstr ++ [ascii ')'])).length - 1 + 1 =
        (decimal cidstr.length ++ [ascii ':']).length := by
    simp only [length_cons, length_append, length_nil]
    have hpos : 0 < (decimal cidstr.length).length :=
      length_pos_iff.2 (decimal_ne_nil _)
    omega
  have happend : decimal cidstr.length ++ ascii ':' :: (cidstr ++ [ascii ')']) =
      (decimal cidstr.length ++ [ascii ':']) ++ (cidstr ++ [ascii ')']) := by
    simp
  rw [hlength, happend, take_left]

theorem clidName_complete {addr cidstr : Text} (haddr : ascii '(' ∉ addr)
    (hlong : (clidName addr cidstr).length + 1 < pathMax) :
    clidFormat (clidName addr cidstr) = .complete := by
  have hcid : cidstr.length < 10 ^ 8 := by
    have hle : cidstr.length ≤ (clidName addr cidstr).length := by
      simp only [clidName, length_append, length_cons]
      omega
    have hmax : pathMax < 10 ^ 8 := by decide
    omega
  have hdigits : (decimal cidstr.length).length ≤ 8 := by
    rw [decimal, length_map]
    exact (Nat.length_toDigits_le_iff (by decide) (by decide)).2 hcid
  rw [clidFormat_complete_iff]
  refine ⟨hlong, _, _, clidName_declares haddr cidstr, ?_, ?_, ?_⟩
  · simp only [length_cons, length_append, length_nil]
    omega
  · rw [clidName_lengthField, atoi_decimal]
    simp only [length_cons, length_append, length_nil]
    omega
  · rw [← cons_append, getLast?_append]
    rfl

theorem strClientAddr_cases (c : RecovClient) :
    ascii '(' ∉ c.strClientAddr ∨ c.strClientAddr = "(unknown)".toList.map ascii := by
  unfold RecovClient.strClientAddr
  cases c.gshClient with
  | none => exact .inr rfl
  | some host => exact .inl fun h => (host.printable _ h).2.2 rfl

theorem unknown_declares (cidstr : Text) :
    Declares (clidName ("(unknown)".toList.map ascii) cidstr)
      (("(unknown)".toList.map ascii ++ ascii '-' :: ascii '(' :: decimal cidstr.length) ++
        ascii ':' :: (cidstr ++ [ascii ')']))
      (ascii ':' :: (cidstr ++ [ascii ')'])) where
  paren := by
    have happend : clidName ("(unknown)".toList.map ascii) cidstr =
        ("(unknown)".toList.map ascii ++ ascii '-' :: ascii '(' :: decimal cidstr.length) ++
          ascii ':' :: (cidstr ++ [ascii ')']) := by
      simp [clidName]
    rw [happend]
    rfl
  colon := by
    apply strchr_of_notMem
    rw [mem_append, mem_cons, mem_cons, not_or, not_or, not_or]
    exact ⟨by decide, by decide, by decide, fun h => absurd (isdigit_decimal h) (by decide)⟩

theorem clidName_of_complete {cidstr s : Text} (hs : clidFormat s = .complete)
    (h : s <+: clidName c.strClientAddr cidstr) : s = clidName c.strClientAddr cidstr := by
  obtain ⟨u, hu⟩ := h
  rcases strClientAddr_cases c with haddr | haddr
  · have hdeclares := clidName_declares haddr cidstr
    rw [← hu] at hdeclares
    have hnil : u = [] := by
      apply complete_append hs hdeclares
      rw [clidName_lengthField, atoi_decimal]
      simp only [length_cons, length_append, length_nil]
      omega
    rw [← hu, hnil, append_nil]
  · -- the first parenthesis is that of the address, and the colon is too far behind it
    obtain ⟨-, ptr, ptr2, hdeclares, hdigits, -⟩ := clidFormat_complete_iff.1 hs
    obtain ⟨hptr, hptr2⟩ := (hdeclares.append u).unique (hu ▸ haddr ▸ unknown_declares cidstr)
    have hlength := congrArg List.length hptr
    have hlength2 := congrArg List.length hptr2
    have hunknown : c.strClientAddr.length = 9 := by
      rw [haddr]
      decide
    simp only [length_append, length_cons] at hlength hlength2
    omega

def recovTag (c : RecovClient) : Text := clidName c.strClientAddr (opaqueText c.clientVal.bytes)

theorem fsCreateClidName_eq {tag : Text} (h : fsCreateClidName c = some tag) :
    tag = recovTag c := by
  unfold fsCreateClidName at h
  cases hvalue : fsConvertOpaqueValueMaxForDir c.clientVal.bytes with
  | none =>
    rw [hvalue] at h
    cases h
  | some cidstr =>
    rw [hvalue] at h
    dsimp only at h
    split_ifs at h
    cases h
    unfold fsConvertOpaqueValueMaxForDir at hvalue
    split_ifs at hvalue
    cases hvalue
    rfl

theorem length_le_opaqueText (value : List UInt8) : value.length ≤ (opaqueText value).length := by
  unfold opaqueText
  split_ifs
  · exact Nat.le_refl _
  · have hflat : (value.flatMap hexByte).length = value.length * 2 := by
      simp [length_flatMap, hexByte]
    rw [length_cons, length_cons, hflat]
    omega

theorem length_opaqueText_lt (c : RecovClient) :
    (opaqueText c.clientVal.bytes).length < (recovTag c).length := by
  simp only [recovTag, clidName, length_append, length_cons]
  omega

theorem fsCreateClidName_of_fits (h : (recovTag c).length < pathMax) :
    fsCreateClidName c = some (recovTag c) := by
  have htext := length_opaqueText_lt c
  have hvalue := length_le_opaqueText c.clientVal.bytes
  have hpos : c.clientVal.bytes.length ≠ 0 :=
    fun h => c.clientVal.nonempty (eq_nil_of_length_eq_zero h)
  have hdigits : (decimal (opaqueText c.clientVal.bytes).length).length ≤ 4 := by
    rw [decimal, length_map]
    apply (Nat.length_toDigits_le_iff (by decide) (by decide)).2
    have hmax : pathMax < 10 ^ 4 := by decide
    omega
  have hconvert : fsConvertOpaqueValueMaxForDir c.clientVal.bytes =
      some (opaqueText c.clientVal.bytes) := by
    unfold fsConvertOpaqueValueMaxForDir
    rw [if_neg (by omega), if_pos (by omega)]
  unfold fsCreateClidName
  rw [hconvert]
  dsimp only
  rw [if_neg (by omega)]
  rfl

theorem recovTag_suffix (c : RecovClient) : [ascii ')'] <:+ recovTag c := by
  refine ⟨c.strClientAddr ++ ascii '-' :: ascii '(' :: (decimal
    (opaqueText c.clientVal.bytes).length ++ ascii ':' :: opaqueText c.clientVal.bytes), ?_⟩
  simp [recovTag, clidName]

theorem recovPath_visible {name : FileName} (h : name ∈ recovPath (recovTag c)) :
    isHidden name = false := by
  obtain ⟨hne, hend, hmem⟩ := mem_segments h
  have hrevoked : isRevoked name = false := by
    obtain ⟨b, rest, rfl⟩ := exists_cons_of_ne_nil hne
    have hprint := (isprint_clidName (hmem b mem_cons_self)).1
    simp only [isRevoked, head?_cons, Option.some.injEq, decide_eq_false_iff_not]
    rintro rfl
    exact absurd hprint (by decide)
  have hdots : name.getLast? = some (ascii '.') → name.length = 255 := by
    intro hlast
    rcases hend with hlength | hsuffix
    · exact hlength
    · have hparen : [ascii ')'] <:+ name :=
        suffix_of_suffix_length_le (recovTag_suffix c) hsuffix (length_pos_iff.2 hne)
      obtain ⟨front, rfl⟩ := hparen
      rw [getLast?_concat] at hlast
      exact absurd hlast (by decide)
  simp only [isHidden, hrevoked, Bool.or_false, Bool.or_eq_false_iff, decide_eq_false_iff_not]
  constructor
  · rintro rfl
    exact absurd (hdots rfl) (by decide)
  · rintro rfl
    exact absurd (hdots rfl) (by decide)

theorem recovPath_ne_nil (c : RecovClient) : recovPath (recovTag c) ≠ [] := by
  intro h
  have hflat := recovPath_flatten (recovTag c)
  rw [h] at hflat
  have hsuffix := recovTag_suffix c
  rw [← hflat] at hsuffix
  exact absurd (suffix_nil.1 hsuffix) (by simp)

theorem recovPath_of_complete {p : List FileName} (hcomplete : clidFormat p.flatten = .complete)
    (h : p <+: recovPath (recovTag c)) : p = recovPath (recovTag c) := by
  obtain ⟨r, hr⟩ := h
  have hflat : p.flatten ++ r.flatten = recovTag c := by
    rw [← flatten_append, hr, recovPath_flatten]
  have hname : p.flatten = recovTag c := clidName_of_complete hcomplete ⟨_, hflat⟩
  have hempty : r.flatten = [] := by
    rw [hname] at hflat
    exact append_right_eq_self.1 hflat
  have hr' : r = [] := by
    cases r with
    | nil => rfl
    | cons name rest =>
      have hmem : name ∈ recovPath (recovTag c) := by
        rw [← hr]
        exact mem_append_right p mem_cons_self
      rw [flatten_cons, append_eq_nil_iff] at hempty
      exact absurd hempty.1 (mem_segments hmem).1
  rw [← hr, hr', append_nil]

end EdgeComputing.Sal
