import EdgeComputing.Library.Machine
import Mathlib.Data.List.Chain

/-!
The handlers of the device service's REST server. A handler whose URL ends in a slash takes every
request below it, any other exactly its URL. Registration refuses a URL that continues a registered
one with a slash, or the other way round.
-/

namespace EdgeComputing.DeviceSdk

open List Option Library

abbrev Url := List Char

def normalizeFrom (skipping : Bool) : Url → Url
  | [] => []
  | c :: upos =>
    if c = '/' ∧ skipping then normalizeFrom true upos else c :: normalizeFrom (c = '/') upos

def normalizeUrl (url : Url) : Url := normalizeFrom false url

structure Handler (η : Type) where
  url : Url
  /-- The methods, the context and the function to call. -/
  entry : η

def Handler.takes {η : Type} (h : Handler η) (nurl : Url) : Bool :=
  if h.url.getLast? = some '/' then h.url.isPrefixOf nurl else nurl == h.url

def urlClash : Url → Url → Bool
  | a :: u1, b :: u2 => if a ≠ b then false else urlClash u1 u2
  | u1, u2 => u1.head? == some '/' || u2.head? == some '/'

variable {η : Type}

def findHandler (handlers : List (Handler η)) (url : Url) : Option (Handler η) :=
  handlers.find? (·.takes (normalizeUrl url))

def registerHandler (handlers : List (Handler η)) (entry : Handler η) : List (Handler η) :=
  if handlers.any fun found => urlClash found.url entry.url then handlers else entry :: handlers

def handlerMachine : Machine (List (Handler η)) (Handler η) where
  init handlers := handlers = []
  step handlers entry := if entry.url = [] then none else some (registerHandler handlers entry)

/-- No slash follows another. -/
def Normal (url : Url) : Prop := url.IsChain fun a b => a = '/' → b ≠ '/'

instance (url : Url) : Decidable (Normal url) := inferInstanceAs (Decidable (List.IsChain _ _))

theorem normalizeFrom_normal (url : Url) (skipping : Bool) :
    Normal (normalizeFrom skipping url) ∧
      (skipping = true → (normalizeFrom skipping url).head? ≠ some '/') := by
  induction url generalizing skipping with
  | nil => exact ⟨.nil, fun _ => nofun⟩
  | cons c upos ih =>
    unfold normalizeFrom
    split_ifs with hskip
    · exact ⟨(ih true).1, fun _ => (ih true).2 rfl⟩
    · refine ⟨isChain_cons.2 ⟨fun b hb hc heq => ?_, (ih _).1⟩, fun hs heq => ?_⟩
      · exact (ih _).2 (decide_eq_true hc) (heq ▸ hb)
      · exact hskip ⟨some.inj heq, hs⟩

theorem normalizeFrom_of_normal {url : Url} (h : Normal url) (skipping : Bool)
    (hhead : skipping = true → url.head? ≠ some '/') : normalizeFrom skipping url = url := by
  induction url generalizing skipping with
  | nil => rfl
  | cons c upos ih =>
    obtain ⟨hnext, hrest⟩ := isChain_cons.1 h
    unfold normalizeFrom
    rw [if_neg fun hskip => hhead hskip.2 (congrArg some hskip.1), ih hrest]
    exact fun hc heq => hnext '/' heq (of_decide_eq_true hc) rfl

def Overlap (g h : Handler η) : Prop :=
  Normal h.url ∧ g.takes h.url = true ∨ Normal g.url ∧ h.takes g.url = true

instance (g h : Handler η) : Decidable (Overlap g h) := inferInstanceAs (Decidable (_ ∨ _))

theorem takes_iff {h : Handler η} {nurl : Url} :
    h.takes nurl = true ↔ nurl = h.url ∨ h.url.getLast? = some '/' ∧ h.url <+: nurl := by
  unfold Handler.takes
  split_ifs with hslash
  · rw [List.isPrefixOf_iff_prefix]
    exact ⟨fun hpre => .inr ⟨hslash, hpre⟩, fun hor => hor.elim (· ▸ prefix_rfl) And.right⟩
  · rw [beq_iff_eq]
    exact ⟨.inl, fun hor => hor.elim id fun hpre => absurd hpre.1 hslash⟩

theorem overlap_iff {g h : Handler η} : Overlap g h ↔
    ∃ url, g.takes (normalizeUrl url) = true ∧ h.takes (normalizeUrl url) = true := by
  have hself (k : Handler η) : k.takes k.url = true := takes_iff.2 (.inl rfl)
  constructor
  · rintro (⟨hnormal, htakes⟩ | ⟨hnormal, htakes⟩)
    · refine ⟨h.url, ?_⟩
      rw [normalizeUrl, normalizeFrom_of_normal hnormal false nofun]
      exact ⟨htakes, hself h⟩
    · refine ⟨g.url, ?_⟩
      rw [normalizeUrl, normalizeFrom_of_normal hnormal false nofun]
      exact ⟨hself g, htakes⟩
  · rintro ⟨url, hg, hh⟩
    have hnormal : Normal (normalizeUrl url) := (normalizeFrom_normal url false).1
    generalize normalizeUrl url = nurl at hg hh hnormal
    rcases takes_iff.1 hg with rfl | ⟨hgs, hgp⟩
    · exact .inr ⟨hnormal, hh⟩
    · rcases takes_iff.1 hh with rfl | ⟨hhs, hhp⟩
      · exact .inl ⟨hnormal, hg⟩
      -- Both end in a slash: the longer of the two is a request that both take.
      · have hstart {u : Url} (hu : u <+: nurl) : Normal u := List.IsChain.prefix hnormal hu
        rcases List.prefix_or_prefix_of_prefix hgp hhp with hpre | hpre
        · exact .inl ⟨hstart hhp, takes_iff.2 (.inr ⟨hgs, hpre⟩)⟩
        · exact .inr ⟨hstart hgp, takes_iff.2 (.inr ⟨hhs, hpre⟩)⟩

def Clashes (u1 u2 : Url) : Prop := u1 ++ ['/'] <+: u2 ∨ u2 ++ ['/'] <+: u1

instance (u1 u2 : Url) : Decidable (Clashes u1 u2) := inferInstanceAs (Decidable (_ ∨ _))

theorem urlClash_iff (u1 u2 : Url) : urlClash u1 u2 = true ↔ Clashes u1 u2 := by
  unfold Clashes
  fun_induction urlClash u1 u2 with
  | case1 a u1 b u2 hne => simp [cons_prefix_cons, hne, Ne.symm hne]
  | case2 a u1 b u2 heq ih => simp_all [cons_prefix_cons]
  | case3 u1 u2 hend =>
    cases u1 with
    | nil => cases u2 <;> simp [eq_comm (a := '/')]
    | cons a u1 =>
      cases u2 with
      | nil => simp [eq_comm (a := '/')]
      | cons b u2 => exact absurd rfl (hend a u1 b u2 rfl)

def AtMostOne (handlers : List (Handler η)) : Prop :=
  handlers.Pairwise fun g h => ∀ url,
    ¬ (g.takes (normalizeUrl url) = true ∧ h.takes (normalizeUrl url) = true)

/-- The URL is refused, or no request for a registered handler is one for the new handler too. -/
def Separate (handlers : List (Handler η)) (entry : Handler η) : Prop :=
  (∃ found ∈ handlers, Clashes found.url entry.url) ∨ ∀ found ∈ handlers, ¬ Overlap entry found

instance (handlers : List (Handler η)) (entry : Handler η) :
    Decidable (Separate handlers entry) := inferInstanceAs (Decidable (_ ∨ _))

theorem atMostOne_register {handlers : List (Handler η)} (h : AtMostOne handlers)
    (entry : Handler η) :
    AtMostOne (registerHandler handlers entry) ↔ Separate handlers entry := by
  have hany : (handlers.any fun found => urlClash found.url entry.url) = true ↔
      ∃ found ∈ handlers, Clashes found.url entry.url := by
    simp only [List.any_eq_true, urlClash_iff]
  unfold registerHandler Separate
  split_ifs with hclash
  · exact ⟨fun _ => .inl (hany.1 hclash), fun _ => h⟩
  · rw [AtMostOne, pairwise_cons, or_iff_right (mt hany.2 hclash)]
    simp only [overlap_iff, not_exists]
    exact ⟨And.left, fun hnew => ⟨hnew, h⟩⟩

theorem AtMostOne.findHandler_eq {handlers sorted : List (Handler η)} (h : AtMostOne handlers)
    (hperm : sorted.Perm handlers) (url : Url) :
    findHandler sorted url = findHandler handlers url := by
  have : Std.Symm fun g k : Handler η => ∀ url,
      ¬ (g.takes (normalizeUrl url) = true ∧ k.takes (normalizeUrl url) = true) :=
    ⟨fun _ _ hgk url hkg => hgk url hkg.symm⟩
  unfold findHandler
  cases hg : handlers.find? (·.takes (normalizeUrl url)) with
  | none =>
    rw [find?_eq_none] at hg ⊢
    exact fun k hk => hg k (hperm.mem_iff.1 hk)
  | some g =>
    have hgt : g.takes (normalizeUrl url) = true := by simpa using find?_some hg
    have hgm := mem_of_find?_eq_some hg
    cases hk : sorted.find? (·.takes (normalizeUrl url)) with
    | none => exact absurd hgt (find?_eq_none.1 hk g (hperm.mem_iff.2 hgm))
    | some k =>
      have hkt : k.takes (normalizeUrl url) = true := by simpa using find?_some hk
      have hkm := hperm.mem_iff.1 (mem_of_find?_eq_some hk)
      by_contra hne
      exact h.forall hkm hgm (fun heq => hne (congrArg some heq)) url ⟨hkt, hgt⟩

/-- As long as each URL is refused or overlaps no registered one, every request has at most one
handler, whatever their order; a registration that meets neither condition ends that. -/
theorem request_handler_unique_iff {handlers : List (Handler η)}
    (h : handlerMachine.ReachableBy Separate handlers) :
    AtMostOne handlers ∧
      (∀ sorted, sorted.Perm handlers → ∀ url, findHandler sorted url = findHandler handlers url) ∧
      ∀ entry after, handlerMachine.step handlers entry = some after →
        (Separate handlers entry ↔ AtMostOne after) := by
  have hone : AtMostOne handlers := by
    refine h.invariant (fun _ hinit => ?_) fun s entry t hs hguard hstep => ?_
    · rw [hinit]
      exact .nil
    · simp only [handlerMachine, ite_none_left_eq_some, some.injEq] at hstep
      exact hstep.2 ▸ (atMostOne_register hs entry).2 hguard
  refine ⟨hone, fun _ => hone.findHandler_eq, fun entry after hstep => ?_⟩
  simp only [handlerMachine, ite_none_left_eq_some, some.injEq] at hstep
  exact hstep.2 ▸ (atMostOne_register hone entry).symm

/-- A handler for all below a URL, one for a single URL, and a URL that is refused. -/
theorem request_handler_unique_device :
    ∃ handlers : List (Handler Nat), handlerMachine.ReachableBy Separate handlers ∧
      handlers.map Handler.entry = [2, 1] ∧ AtMostOne handlers := by
  have hrun : (handlerMachine.runFromBy Separate []
      [⟨"/device/".toList, 1⟩, ⟨"/ping".toList, 2⟩, ⟨"/ping/".toList, 3⟩]).map
      (List.map Handler.entry) = some [2, 1] := by
    decide +kernel
  obtain ⟨handlers, hh, hentries⟩ := map_eq_some_iff.1 hrun
  have hreach := Machine.reachableBy_of_runFromBy (.init rfl) _ hh
  exact ⟨handlers, hreach, hentries, (request_handler_unique_iff hreach).1⟩

/-- A URL below one that ends in a slash is let in. -/
theorem two_handlers_for_request :
    ∃ handlers : List (Handler Nat), handlerMachine.Reachable handlers ∧
      handlers.map (·.takes (normalizeUrl "/a//b".toList)) = [true, true] ∧
      ¬ AtMostOne handlers := by
  have hrun : handlerMachine.runFrom [] [⟨"/a/".toList, 1⟩, ⟨"/a/b".toList, 2⟩] =
      some [⟨"/a/b".toList, 2⟩, ⟨"/a/".toList, 1⟩] := rfl
  refine ⟨_, Machine.reachable_of_runFrom (.init rfl) _ hrun, by decide +kernel, fun hone => ?_⟩
  exact rel_of_pairwise_cons hone (.head _) "/a//b".toList (by decide +kernel)

end EdgeComputing.DeviceSdk
