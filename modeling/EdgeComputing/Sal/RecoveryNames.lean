import EdgeComputing.Sal.RecoveryTag

/-!
Which clients share a recovery name: the address of the client with a text made of its value, the
value itself or its bytes in hexadecimal.
-/

namespace EdgeComputing.Sal

open List Library PathTree

/-- The client may reclaim through an entry that has its name, which is compared with `strncmp` up
to PATH_MAX. -/
def checkClid (recovTag : Option Text) (clidEnt : ClidEntry) : Bool :=
  match recovTag with
  | some tag => tag.take pathMax = clidEnt.clName.take pathMax
  | none => false

def nfs4ChkClidImpl (recovTag : Option Text) (clidList : List ClidEntry) : Option ClidEntry :=
  clidList.find? (checkClid recovTag)

def SpellsBytes (value other : List UInt8) : Prop :=
  value = ascii '0' :: ascii 'x' :: other.flatMap hexByte ∧
    other.all (fun b => isprint b && b != ascii '/') = false

instance (value other : List UInt8) : Decidable (SpellsBytes value other) :=
  inferInstanceAs (Decidable (_ ∧ _))

theorem hexByte_injective {b b' : UInt8} (h : hexByte b = hexByte b') : b = b' := by
  let byteOf (digits : List UInt8) : UInt8 :=
    digits.foldl (fun acc d => acc * 16 + if d < 58 then d - 48 else d - 87) 0
  have hread (b : UInt8) : byteOf (hexByte b) = b :=
    of_decide_eq_true (of_all_bytes (p := fun b => byteOf (hexByte b) = b) (by decide +kernel) b)
  rw [← hread b, h, hread b']

theorem flatMap_hexByte_injective {v w : List UInt8} (h : v.flatMap hexByte = w.flatMap hexByte) :
    v = w := by
  induction v generalizing w with
  | nil =>
    cases w with
    | nil => rfl
    | cons b w => cases h
  | cons b v ih =>
    cases w with
    | nil => cases h
    | cons b' w =>
      obtain ⟨hbyte, hrest⟩ := append_inj h rfl
      rw [hexByte_injective hbyte, ih hrest]

theorem opaqueText_eq_iff {v w : List UInt8} (hne : v ≠ w) :
    opaqueText v = opaqueText w ↔ SpellsBytes v w ∨ SpellsBytes w v := by
  have hplain : ∀ w, (opaqueText w).all (fun b => isprint b && b != ascii '/') = true := by
    intro w
    rw [List.all_eq_true]
    intro b hb
    simpa using isprint_opaqueText hb
  have hv := hplain v
  have hw := hplain w
  unfold SpellsBytes
  unfold opaqueText at hv hw ⊢
  split_ifs at hv hw ⊢ with hpv hpw hpw
  · simp [hpv, hpw, hne]
  · simp [hpv, hpw]
  · simp [hpv, hpw, eq_comm]
  · constructor
    · intro h
      exact absurd (flatMap_hexByte_injective (cons_eq_cons.1 (cons_eq_cons.1 h).2).2) hne
    · rintro (⟨rfl, -⟩ | ⟨rfl, -⟩)
      · exact absurd hw hpv
      · exact absurd hv hpw

theorem clidName_prefix_inj {addr s t : Text} (h : clidName addr s <+: clidName addr t) : s = t := by
  obtain ⟨u, hu⟩ := h
  simp only [clidName, append_assoc, cons_append, append_cancel_left_eq, List.cons.injEq,
    true_and] at hu
  have hlength : s.length = t.length := by
    have hdigits : ∀ (n : Nat) (rest : Text), digitsValue (decimal n ++ ascii ':' :: rest) = n :=
      fun n rest => (digitsValue_append (fun d => isdigit_decimal) (by decide) rest).trans
        (foldl_decimal n)
    rw [← hdigits s.length, hu, hdigits]
  rw [hlength, append_cancel_left_eq, List.cons.injEq] at hu
  exact (append_inj hu.2 hlength).1

theorem recovTag_prefix_text {c d : RecovClient} (haddr : c.strClientAddr = d.strClientAddr)
    (h : recovTag c <+: recovTag d) :
    opaqueText c.clientVal.bytes = opaqueText d.clientVal.bytes := by
  unfold recovTag at h
  rw [haddr] at h
  exact clidName_prefix_inj h

theorem mem_fsRmClidImpl {t : Dir} {path q : List FileName} (hq : q ∈ t.paths)
    (hpath : ¬ q <+: path) (hbelow : ¬ path <+: q) : q ∈ (fsRmClidImpl t path).paths := by
  induction t generalizing path q with
  | nil => cases hq
  | cons name sub rest ihsub ihrest =>
    cases path with
    | nil => exact absurd nil_prefix hbelow
    | cons head tail =>
      unfold fsRmClidImpl
      dsimp only
      rw [mem_paths_cons] at hq
      by_cases hname : name = head
      · subst hname
        rw [if_pos rfl]
        rcases hq with rfl | ⟨q, hq, rfl⟩ | hq
        · exact absurd ⟨tail, rfl⟩ hpath
        · rw [cons_prefix_cons, and_iff_right rfl] at hpath hbelow
          have hsub := ihsub hq hpath hbelow
          have hne : fsRmClidImpl sub tail ≠ .nil := by
            intro hnil
            rw [hnil] at hsub
            cases hsub
          rw [if_neg hne, mem_paths_cons]
          exact .inr (.inl ⟨q, hsub, rfl⟩)
        · split_ifs
          · exact hq
          · rw [mem_paths_cons]
            exact .inr (.inr hq)
      · rw [if_neg hname, mem_paths_cons]
        exact hq.imp_right fun hq => hq.imp_right fun hq => ihrest hq hpath hbelow

/-- Clients of one address have different names, neither may reclaim through the entry of the other
or removes its directory, exactly if neither value spells the bytes of the other. -/
theorem recov_tags_distinct_iff {c d : RecovClient} {tag tag' : Text}
    (haddr : c.strClientAddr = d.strClientAddr) (hval : c.clientVal.bytes ≠ d.clientVal.bytes)
    (hc : fsCreateClidName c = some tag) (hd : fsCreateClidName d = some tag') :
    (tag ≠ tag' ∧
      (∀ clidList, (∀ ent ∈ clidList, ent.clName = tag' ∧ ent.clName.length < pathMax) →
        nfs4ChkClidImpl (some tag) clidList = none) ∧
      ∀ fs : Dir, recovPath tag' ∈ fs.paths →
        recovPath tag' ∈ (fsRmClidImpl fs (recovPath tag)).paths) ↔
    ¬ SpellsBytes c.clientVal.bytes d.clientVal.bytes ∧
      ¬ SpellsBytes d.clientVal.bytes c.clientVal.bytes := by
  obtain rfl := fsCreateClidName_eq hc
  obtain rfl := fsCreateClidName_eq hd
  rw [← not_or, ← opaqueText_eq_iff hval]
  constructor
  · rintro ⟨hne, -⟩ htext
    apply hne
    rw [recovTag, recovTag, haddr, htext]
  · intro htext
    have hpre : ¬ recovTag c <+: recovTag d := fun h => htext (recovTag_prefix_text haddr h)
    have hpre' : ¬ recovTag d <+: recovTag c := fun h => htext (recovTag_prefix_text haddr.symm h).symm
    have hpaths : ∀ {s t : Text}, recovPath s <+: recovPath t → s <+: t := by
      rintro s t ⟨rest, hrest⟩
      refine ⟨rest.flatten, ?_⟩
      rw [← recovPath_flatten t, ← hrest, flatten_append, recovPath_flatten]
    refine ⟨fun h => hpre (h ▸ prefix_refl _), fun clidList hents => ?_, fun fs hfs => ?_⟩
    · rw [nfs4ChkClidImpl, find?_eq_none]
      intro ent hent hcheck
      obtain ⟨hname, hlong⟩ := hents ent hent
      simp only [checkClid, decide_eq_true_eq] at hcheck
      rw [take_of_length_le (l := ent.clName) (by omega), hname] at hcheck
      exact hpre' ⟨_, hcheck ▸ take_append_drop pathMax (recovTag c)⟩
    · exact mem_fsRmClidImpl hfs (mt hpaths hpre') (mt hpaths hpre)

def clientOf (byte : UInt8) (bytes : List UInt8) : RecovClient where
  gshClient := some localAddr
  clientVal := ⟨byte :: bytes, cons_ne_nil _ _⟩

theorem recov_tags_distinct_bytes : ∃ tag tag', fsCreateClidName (clientOf 1 []) = some tag ∧
    fsCreateClidName (clientOf 2 []) = some tag' ∧ tag ≠ tag' :=
  ⟨_, _, rfl, rfl, ((recov_tags_distinct_iff (c := clientOf 1 []) (d := clientOf 2 []) rfl
    (by decide) rfl rfl).2 ⟨by decide +kernel, by decide +kernel⟩).1⟩

/-- The byte 1 and the text `0x01`: one name, one entry, and one directory that either client
removes. -/
theorem spelled_value_shares_tag : ∃ tag, fsCreateClidName (clientOf 1 []) = some tag ∧
    fsCreateClidName (clientOf 48 [120, 48, 49]) = some tag ∧
      nfs4ChkClidImpl (some tag) [⟨tag, []⟩] = some ⟨tag, []⟩ ∧
      ∃ fs, fsAddClid 30 .nil (clientOf 1 []) = some fs ∧ recovPath tag ∈ fs.paths ∧
        recovPath tag ∉ (fsRmClidImpl fs (recovPath tag)).paths :=
  ⟨_, rfl, by decide +kernel, by decide +kernel, _, rfl, by decide +kernel, by decide +kernel⟩

end EdgeComputing.Sal
