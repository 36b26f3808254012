import EdgeComputing.DeviceSdk.DeviceJson
import Mathlib.Data.Fintype.EquivFin
import Mathlib.Data.List.Perm.Basic

/-!
The comparisons that tell whether a device has changed (devsdk-base.c): lists are equal if they have
the same length and every element of the first compares equal to the first of its name in the
second.
-/

namespace EdgeComputing.DeviceSdk

open List

section ListEqual

variable {α : Type*} (name : α → String) (cmp : α → α → Bool)

/-- The body of `LIST_EQUAL_FUNCTION`. -/
def listEqual (l1 l2 : List α) : Bool :=
  l1.length == l2.length && l1.all fun l =>
    match l2.find? fun found => name l = name found with
    | none => false
    | some found => cmp l found

variable {name cmp} {R : α → α → Prop} {l1 l2 : List α}

theorem listEqual_iff_found : listEqual name cmp l1 l2 = true ↔ l1.length = l2.length ∧
    ∀ a ∈ l1, ∃ b, l2.find? (fun found => name a = name found) = some b ∧ cmp a b = true := by
  rw [listEqual, Bool.and_eq_true, beq_iff_eq, List.all_eq_true]
  refine and_congr_right fun _ => forall₂_congr fun a _ => ?_
  cases l2.find? fun found => name a = name found <;> simp

theorem find_named (hnames : (l2.map name).Nodup) {a b : α} (hb : b ∈ l2) (h : name a = name b) :
    l2.find? (fun found => name a = name found) = some b := by
  cases hfind : l2.find? fun found => name a = name found with
  | none => exact absurd h (by simpa using find?_eq_none.mp hfind b hb)
  | some found =>
    have hfound : name a = name found := by simpa using find?_some hfind
    rw [inj_on_of_nodup_map hnames (mem_of_find?_eq_some hfind) hb (hfound.symm.trans h)]

theorem exists_pairing (hnames : (l1.map name).Nodup) (hlen : l1.length = l2.length)
    (h : ∀ a ∈ l1, ∃ b ∈ l2, name a = name b ∧ R a b) :
    Relation.Comp (Forall₂ fun a b => name a = name b ∧ R a b) Perm l1 l2 := by
  induction l1 generalizing l2 with
  | nil => exact ⟨[], .nil, by simp [length_eq_zero_iff.mp hlen.symm]⟩
  | cons a l1 ih =>
    obtain ⟨hnew, hrest⟩ := nodup_cons.mp hnames
    obtain ⟨b, hb, hab⟩ := h a mem_cons_self
    obtain ⟨s, t, rfl⟩ := append_of_mem hb
    have hlen' : l1.length = (s ++ t).length := by simp_all [← Nat.add_assoc]
    obtain ⟨c, hpairs, hperm⟩ := ih hrest hlen' fun a' ha' => by
      obtain ⟨b', hb', hab'⟩ := h a' (mem_cons_of_mem a ha')
      have hne : b' ≠ b := by
        rintro rfl
        exact hnew (hab.1.trans hab'.1.symm ▸ mem_map_of_mem ha')
      exact ⟨b', by simpa [hne] using hb', hab'⟩
    exact ⟨b :: c, .cons hab hpairs, (hperm.cons b).trans perm_middle.symm⟩

theorem exists_pair_of_mem {a : α} {c : List α} (h : Forall₂ R l1 c) (ha : a ∈ l1) :
    ∃ b ∈ c, R a b := by
  induction h with
  | nil => cases ha
  | cons hab _ ih => grind

/-- Where no name repeats, the comparison finds the pairs. -/
theorem listEqual_iff_of_nodup (hnames : (l1.map name).Nodup)
    (hcmp : ∀ a ∈ l1, ∀ b, cmp a b = true ↔ R a b) :
    listEqual name cmp l1 l2 = true ↔
      Relation.Comp (Forall₂ fun a b => name a = name b ∧ R a b) Perm l1 l2 := by
  rw [listEqual_iff_found]
  constructor
  · rintro ⟨hlen, hfound⟩
    refine exists_pairing hnames hlen fun a ha => ?_
    obtain ⟨b, hfind, hab⟩ := hfound a ha
    exact ⟨b, mem_of_find?_eq_some hfind, by simpa using find?_some hfind, (hcmp a ha b).mp hab⟩
  · rintro ⟨c, hpairs, hperm⟩
    have hsame : l1.map name = c.map name := forall₂_eq_eq_eq ▸
      (forall₂_map_left_iff.mpr (forall₂_map_right_iff.mpr (hpairs.imp fun _ _ h => h.1)))
    have hnames2 : (l2.map name).Nodup := (hperm.map name).nodup_iff.mp (hsame ▸ hnames)
    refine ⟨hpairs.length_eq.trans hperm.length_eq, fun a ha => ?_⟩
    obtain ⟨b, hb, hab, hR⟩ := exists_pair_of_mem hpairs ha
    exact ⟨b, find_named hnames2 (hperm.subset hb) hab, (hcmp a ha b).mpr hR⟩

theorem exists_repeated (hnames : ¬ (l1.map name).Nodup) :
    ∃ s a t, l1 = s ++ a :: t ∧ name a ∈ s.map name := by
  induction l1 with
  | nil => exact absurd nodup_nil hnames
  | cons b l1 ih =>
    by_cases hb : name b ∈ l1.map name
    · obtain ⟨a, ha, hab⟩ := mem_map.mp hb
      obtain ⟨s, t, rfl⟩ := append_of_mem ha
      exact ⟨b :: s, a, t, rfl, by simp [hab]⟩
    · obtain ⟨s, a, t, rfl, ha⟩ := ih fun h => hnames (nodup_cons.mpr ⟨hb, h⟩)
      exact ⟨b :: s, a, t, rfl, mem_cons_of_mem _ ha⟩

/-- A list with a repeated name that is equal to itself is taken to be equal to one with a new
name. -/
theorem exists_equal_with_new_name (hself : listEqual name cmp l1 l1 = true)
    (hnames : ¬ (l1.map name).Nodup) (hname : Function.Surjective name) :
    ∃ l2, listEqual name cmp l1 l2 = true ∧ ∃ z ∈ l2, ∀ a ∈ l1, name a ≠ name z := by
  obtain ⟨s, a, t, rfl, hrepeated⟩ := exists_repeated hnames
  obtain ⟨new, hnew⟩ := Infinite.exists_notMem_finset ((s ++ a :: t).map name).toFinset
  obtain ⟨z, rfl⟩ := hname new
  have hz : ∀ b ∈ s ++ a :: t, name b ≠ name z := fun b hb h =>
    hnew (mem_toFinset.mpr (h ▸ mem_map_of_mem hb))
  refine ⟨s ++ z :: t, listEqual_iff_found.mpr ⟨by simp, fun b hb => ?_⟩, z, by simp, hz⟩
  obtain ⟨found, hfind, hcmp⟩ := (listEqual_iff_found.mp hself).2 b hb
  refine ⟨found, ?_, hcmp⟩
  rw [← hfind, find?_append, find?_append, find?_cons_of_neg (by simpa using hz b hb)]
  by_cases hba : name b = name a
  · have hs : (s.find? fun found => name b = name found).isSome := by
      obtain ⟨a', ha', hname'⟩ := mem_map.mp hrepeated
      exact find?_isSome.mpr ⟨a', ha', by simp [hba, hname']⟩
    rw [Option.or_of_isSome hs, Option.or_of_isSome hs]
  · rw [find?_cons_of_neg (by simpa using hba)]

/-- Where elements of one name that compare equal are equal. -/
theorem listEqual_perm_iff (hname : Function.Surjective name)
    (heq : ∀ a b, name a = name b ∧ cmp a b = true ↔ a = b) :
    (∀ l2, listEqual name cmp l1 l2 = true ↔ l1 ~ l2) ↔ (l1.map name).Nodup := by
  constructor
  · intro h
    by_contra hnames
    obtain ⟨l2, hequal, z, hz, hnew⟩ :=
      exists_equal_with_new_name ((h l1).mpr (.refl l1)) hnames hname
    exact hnew z (((h l2).mp hequal).symm.subset hz) rfl
  · intro hnames l2
    rw [listEqual_iff_of_nodup hnames fun _ _ _ => .rfl]
    simp only [heq, forall₂_eq_eq_eq, Relation.eq_comp]

end ListEqual

def pairEqual (p1 p2 : NvPair) : Bool := p1.value == p2.value

def nvpairsEqual : List NvPair → List NvPair → Bool := listEqual NvPair.name pairEqual

def protocolEqual (p1 p2 : Protocol) : Bool := nvpairsEqual p1.properties p2.properties

def protocolsEqual : List Protocol → List Protocol → Bool := listEqual Protocol.name protocolEqual

def autoeventEqual (e1 e2 : AutoEvent) : Bool :=
  e1.frequency == e2.frequency && e1.onChange == e2.onChange

def autoeventsEqual : List AutoEvent → List AutoEvent → Bool :=
  listEqual AutoEvent.resource autoeventEqual

theorem nvpairsEqual_iff (l1 : List NvPair) :
    (∀ l2, nvpairsEqual l1 l2 = true ↔ l1 ~ l2) ↔ (l1.map NvPair.name).Nodup :=
  listEqual_perm_iff (fun name => ⟨⟨name, ""⟩, rfl⟩) fun a b => by
    cases a
    cases b
    simp [pairEqual]

theorem autoeventsEqual_iff (l1 : List AutoEvent) :
    (∀ l2, autoeventsEqual l1 l2 = true ↔ l1 ~ l2) ↔ (l1.map AutoEvent.resource).Nodup :=
  listEqual_perm_iff (fun name => ⟨⟨name, "", false⟩, rfl⟩) fun a b => by
    cases a
    cases b
    simp [autoeventEqual]

theorem sameProtocols_iff (l1 l2 : List Protocol) : SameProtocols l1 l2 ↔ Relation.Comp
    (Forall₂ fun p q => p.name = q.name ∧ p.properties ~ q.properties) Perm l1 l2 := by
  rw [forall₂_comp_perm_eq_perm_comp_forall₂]
  rfl

theorem distinctNames_of_protocolsEqual {l1 : List Protocol}
    (h : ∀ l2, protocolsEqual l1 l2 = true ↔ SameProtocols l1 l2) : DistinctNames l1 := by
  have hself : protocolsEqual l1 l1 = true :=
    (h l1).mpr ⟨l1, .refl l1, forall₂_same.mpr fun _ _ => ⟨rfl, .refl _⟩⟩
  have hnames : (l1.map Protocol.name).Nodup := by
    by_contra hnames
    obtain ⟨l2, hequal, z, hz, hnew⟩ :=
      exists_equal_with_new_name hself hnames fun name => ⟨⟨name, []⟩, rfl⟩
    obtain ⟨c, hperm, hpairs⟩ := (h l2).mp hequal
    obtain ⟨a, ha, haz⟩ := exists_pair_of_mem hpairs.flip hz
    exact hnew a (hperm.symm.subset ha) haz.1
  refine ⟨hnames, fun p hp => ?_⟩
  by_contra hprops
  have hcmp : ∀ q ∈ l1, protocolEqual q q = true := fun q hq => by
    obtain ⟨b, hfind, hqb⟩ := (listEqual_iff_found.mp hself).2 q hq
    rwa [← Option.some_inj.mp ((find_named hnames hq rfl).symm.trans hfind)] at hqb
  obtain ⟨properties, hequal, z, hz, hnew⟩ :=
    exists_equal_with_new_name (hcmp p hp) hprops fun name => ⟨⟨name, ""⟩, rfl⟩
  -- the other list has these properties in the place of those of `p`
  let g (q : Protocol) : Protocol := if q.name = p.name then ⟨p.name, properties⟩ else q
  have hgp : g p = ⟨p.name, properties⟩ := if_pos rfl
  have hg (q : Protocol) : (g q).name = q.name := by grind
  have hgnames : ((l1.map g).map Protocol.name).Nodup := by simpa [Function.comp_def, hg]
  have hgcmp : ∀ q ∈ l1, protocolEqual q (g q) = true := fun q hq => by
    by_cases hqp : q.name = p.name
    · rw [inj_on_of_nodup_map hnames hq hp hqp, hgp]
      exact hequal
    · rw [show g q = q from if_neg hqp]
      exact hcmp q hq
  have hsame : SameProtocols l1 (l1.map g) := (h _).mp (listEqual_iff_found.mpr
    ⟨(length_map _).symm, fun q hq =>
      ⟨g q, find_named hgnames (mem_map_of_mem hq) (hg q).symm, hgcmp q hq⟩⟩)
  obtain ⟨c, hpairs, hperm⟩ := (sameProtocols_iff _ _).mp hsame
  obtain ⟨b, hb, hpb, hprop⟩ := exists_pair_of_mem hpairs hp
  have hbg : b = g p := inj_on_of_nodup_map hgnames (hperm.subset hb) (mem_map_of_mem hp)
    (hpb.symm.trans (hg p).symm)
  rw [hbg, hgp] at hprop
  exact hnew z (hprop.symm.subset hz) rfl

end EdgeComputing.DeviceSdk
