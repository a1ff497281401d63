import SchemaGraph.Proofs.Catalog.Resolution
import SchemaGraph.Proofs.Reference.Names

/-! # Identities tell references apart

An identity joins the full names of types, without their arity suffixes, to one text. Full names
may hold any characters, so the text cannot be read from the left. From the right it can: the last
character tells the shape of the reference, and where an argument begins is settled by the name
that was found for it (`Found.eq_of_append`). What the suffixes told is lost, which matters only
for names that differ in the writing of their suffixes alone. -/

namespace SchemaGraph
namespace Catalog

open Reference (Rel Spelled Occurs)

variable {c : Catalog} {d e : Descriptor} {name : String} {r r' : Reference}
  {rs rs' : List Reference} {s s' t : String} {cs cs' p p' w base suffix : List Char} {n : Nat}

/-- Both names stand for one type. -/
def SameType (c : Catalog) (n m : String) : Prop := ∃ d, c.resolve n = .ok d ∧ c.resolve m = .ok d

/-- The full names of a type in the one reference and of a type in the other clash. -/
def Clash (c : Catalog) (r r' : Reference) : Prop :=
  ∃ n m d e, Occurs n r ∧ Occurs m r' ∧ c.resolve n = .ok d ∧ c.resolve m = .ok e ∧
    (d.Clash e ∨ e.Clash d)

theorem Clash.argument {head head' : String} (h : c.Clash r r') (hr : r ∈ rs) (hr' : r' ∈ rs') :
    c.Clash (.named head rs) (.named head' rs') := by
  obtain ⟨n, m, d, e, hn, hm, h⟩ := h
  exact ⟨n, m, d, e, .argument hr hn, .argument hr' hm, h⟩

theorem Clash.element (h : c.Clash r r') : c.Clash (.array r) (.array r') := by
  obtain ⟨n, m, d, e, hn, hm, h⟩ := h
  exact ⟨n, m, d, e, .element hn, .element hm, h⟩

/-! ## Identities from the right -/

theorem resolveIn_eq_ok : c.resolveIn r name = .ok d ↔ c.resolve name = .ok d := by
  rw [resolveIn]
  split
  · next h => simp [h]
  · next h => simp [h]

theorem identity_array_eq_ok :
    c.identity (.array r) = .ok s ↔ ∃ t, c.identity r = .ok t ∧ s = t ++ "[]" := by
  rw [identity]
  cases c.identity r with
  | error e => simp [bind, Except.bind]
  | ok t => simp [bind, Except.bind, pure, Except.pure, eq_comm]

theorem identity_named_eq_ok :
    c.identity (.named name rs) = .ok s ↔
      ∃ d t, c.resolve name = .ok d ∧ c.identityArguments rs = .ok t ∧
        s = stripArity d.name ++ t := by
  rw [identity]
  simp only [← resolveIn_eq_ok (r := .named name rs)]
  cases c.resolveIn (.named name rs) name with
  | error e => simp [bind, Except.bind]
  | ok d =>
    cases c.identityArguments rs with
    | error e => simp [bind, Except.bind]
    | ok t => simp [bind, Except.bind, pure, Except.pure, eq_comm]

theorem identityMore_cons_eq_ok :
    c.identityMore (r :: rs) = .ok t ↔
      ∃ s u, c.identity r = .ok s ∧ c.identityMore rs = .ok u ∧ t = "," ++ s ++ u := by
  rw [identityMore]
  cases c.identity r with
  | error e => simp [bind, Except.bind]
  | ok s =>
    cases c.identityMore rs with
    | error e => simp [bind, Except.bind]
    | ok u => simp [bind, Except.bind, pure, Except.pure, eq_comm]

theorem identityArguments_cons_eq_ok :
    c.identityArguments (r :: rs) = .ok t ↔
      ∃ s u, c.identity r = .ok s ∧ c.identityMore rs = .ok u ∧ t = "<" ++ s ++ u ++ ">" := by
  rw [identityArguments]
  cases c.identity r with
  | error e => simp [bind, Except.bind]
  | ok s =>
    cases c.identityMore rs with
    | error e => simp [bind, Except.bind]
    | ok u => simp [bind, Except.bind, pure, Except.pure, eq_comm]

/-- What stands in front of an argument: the bracket and the arguments before it. -/
inductive Opened (c : Catalog) : List Reference → List Char → Prop
  | nil : Opened c [] ['<']
  | snoc {rs : List Reference} {cs : List Char} {r : Reference} {s : String} (h : Opened c rs cs)
    (hr : c.identity r = .ok s) : Opened c (rs ++ [r]) (cs ++ s.toList ++ [','])

theorem Opened.closedBy (h : c.Opened rs cs) : ClosedBy argumentMarks cs := by
  cases h with
  | nil => exact ⟨'<', mem_argumentMarks.mpr (.inl rfl), rfl⟩
  | snoc => exact ⟨',', mem_argumentMarks.mpr (.inr rfl), List.getLast?_concat⟩

/-- Arguments are the last one behind the others. -/
theorem Opened.more (h : c.Opened rs cs) (hr : c.identity r = .ok s)
    (hmore : c.identityMore rs' = .ok t) :
    ∃ init last cs' s', rs ++ r :: rs' = init ++ [last] ∧ c.Opened init cs' ∧
      c.identity last = .ok s' ∧ cs ++ s.toList ++ t.toList = cs' ++ s'.toList := by
  induction rs' generalizing rs cs r s t with
  | nil =>
    cases hmore
    exact ⟨rs, r, cs, s, rfl, h, hr, by simp⟩
  | cons r' rs' ih =>
    obtain ⟨s', u, hs', hu, rfl⟩ := identityMore_cons_eq_ok.mp hmore
    obtain ⟨init, last, cs', s'', hrs, ho, hlast, he⟩ := ih (h.snoc hr) hs' hu
    refine ⟨init, last, cs', s'', by rw [← hrs]; simp, ho, hlast, ?_⟩
    rw [← he]
    simp

/-- The text of an identity, taken apart at its end. -/
inductive Text (c : Catalog) : Reference → List Char → Prop
  | leaf {name : String} {d : Descriptor} {w base suffix : List Char}
    (hd : c.resolve name = .ok d) (hf : c.Found w base suffix 0 d) :
    Text c (.named name []) (w ++ base)
  | generic {name : String} {d : Descriptor} {w base suffix cs : List Char}
    {rs : List Reference} {r : Reference} {s : String} (hd : c.resolve name = .ok d)
    (hf : c.Found w base suffix (rs ++ [r]).length d) (ho : c.Opened rs cs)
    (hr : c.identity r = .ok s) :
    Text c (.named name (rs ++ [r])) (w ++ base ++ cs ++ s.toList ++ ['>'])
  | array {r : Reference} {s : String} (hr : c.identity r = .ok s) :
    Text c (.array r) (s.toList ++ ['[', ']'])

theorem Lawful.text (hc : c.Lawful) (hr : r.Spelled) (h : c.identity r = .ok s) :
    c.Text r s.toList := by
  cases hr with
  | @named name rs hname _ =>
    obtain ⟨d, t, hd, ht, rfl⟩ := identity_named_eq_ok.mp h
    obtain ⟨w, base, suffix, hf⟩ := hc.found hname hd
    cases rs with
    | nil =>
      cases ht
      simpa [hf.stripArity] using Text.leaf hd hf
    | cons r rs =>
      obtain ⟨s, u, hs, hu, rfl⟩ := identityArguments_cons_eq_ok.mp ht
      obtain ⟨init, last, cs, s', hrs, ho, hlast, he⟩ := Opened.nil.more hs hu
      rw [List.nil_append] at hrs
      rw [hrs] at hf
      have htext : (stripArity d.name ++ ("<" ++ s ++ u ++ ">")).toList =
          w ++ base ++ cs ++ s'.toList ++ ['>'] := by
        have he' : '<' :: (s.toList ++ u.toList) = cs ++ s'.toList := by simpa using he
        simp only [String.toList_append, hf.stripArity, List.append_assoc]
        simpa using congrArg (fun l => w ++ (base ++ (l ++ ['>']))) he'
      rw [hrs, htext]
      exact .generic hd hf ho hlast
  | array =>
    obtain ⟨t, ht, rfl⟩ := identity_array_eq_ok.mp h
    rw [String.toList_append]
    exact .array ht

/-- The character that closes the identity of a reference that is not a leaf. -/
def closing? : Reference → Option Char
  | .named _ [] => none
  | .named _ (_ :: _) => some '>'
  | .array _ => some ']'

theorem closing?_concat : closing? (.named name (rs ++ [r])) = some '>' := by
  cases rs <;> rfl

/-- The end of an identity tells the shape of the reference. -/
theorem Text.closing?_eq (h : c.Text r cs) (p : List Char) :
    (p ++ cs).getLast?.filter (fun x => !Token.isBaseChar x) = closing? r := by
  cases h with
  | leaf _ hf =>
    rw [← List.append_assoc, List.getLast?_append_of_ne_nil _ hf.isBase.1]
    cases hlast : List.getLast? _ with
    | none => rfl
    | some x => simp [closing?, hf.isBase.2 x (List.mem_of_getLast? hlast)]
  | generic =>
    rw [← List.append_assoc, List.getLast?_concat, closing?_concat]
    rfl
  | array =>
    rw [← List.append_assoc, List.getLast?_append_of_ne_nil _ (by simp)]
    rfl

/-! ## Injectivity -/

/-- Two names with one arity that are found behind openings, up to their suffixes at the same
end of a text, stand for one type. -/
theorem Found.eq_of_openings {w' base' suffix' : List Char} (hc : c.Lawful)
    (h : c.Found w base suffix n d) (h' : c.Found w' base' suffix' n e)
    (hclash : ¬ (d.Clash e ∨ e.Clash d)) (hp : OpenAfter argumentMarks p)
    (hp' : OpenAfter argumentMarks p') (he : p ++ (w ++ base) = p' ++ (w' ++ base')) :
    p = p' ∧ d = e := by
  rcases List.append_eq_append_iff.mp he with ⟨z, hz, he⟩ | ⟨z, hz, he⟩
  · have hopen : OpenAfter argumentMarks z := (hz ▸ hp').of_append
    by_cases hs : suffix = suffix'
    · subst hs
      obtain ⟨rfl, rfl⟩ := h.eq_of_append hc h' hopen he
      exact ⟨by rw [hz, List.append_nil], rfl⟩
    · refine absurd (.inl ⟨z, w' ++ base', suffix, suffix', n, hopen, h.isSuffix, h'.isSuffix, hs,
        ?_, h'.name⟩) hclash
      rw [h.name, he]
  · have hopen : OpenAfter argumentMarks z := (hz ▸ hp).of_append
    by_cases hs : suffix' = suffix
    · subst hs
      obtain ⟨rfl, rfl⟩ := h'.eq_of_append hc h hopen he
      exact ⟨by rw [hz, List.append_nil], rfl⟩
    · refine absurd (.inr ⟨z, w ++ base, suffix', suffix, n, hopen, h'.isSuffix, h.isSuffix, hs,
        ?_, h.name⟩) hclash
      rw [h'.name, he]

/-- No identity that ends a text behind an opening, as this reference's does, is another's. -/
def Decisive (c : Catalog) (r : Reference) : Prop :=
  ∀ {r' s s' p p'}, r.Spelled → r'.Spelled → ¬ c.Clash r r' → c.identity r = .ok s →
    c.identity r' = .ok s' → OpenAfter argumentMarks p → OpenAfter argumentMarks p' →
    p ++ s.toList = p' ++ s'.toList → p = p' ∧ Rel c.SameType r r'

theorem Opened.inj (hrs : ∀ r ∈ rs, c.Decisive r) (hs : ∀ r ∈ rs, r.Spelled)
    (hs' : ∀ r ∈ rs', r.Spelled) (hclash : ∀ r ∈ rs, ∀ r' ∈ rs', ¬ c.Clash r r')
    (h : c.Opened rs cs) (h' : c.Opened rs' cs') (he : p ++ cs = p' ++ cs') :
    p = p' ∧ List.Forall₂ (Rel c.SameType) rs rs' := by
  have hmarks : '<' ≠ ',' := by simp
  induction h generalizing rs' cs' with
  | nil =>
    cases h' with
    | nil => exact ⟨List.append_cancel_right he, .nil⟩
    | snoc =>
      have hlast := congrArg List.getLast? he
      rw [← List.append_assoc, List.getLast?_concat, List.getLast?_concat] at hlast
      exact absurd (Option.some.inj hlast) hmarks
  | @snoc rs cs r s h hr ih =>
    cases h' with
    | nil =>
      have hlast := congrArg List.getLast? he
      rw [← List.append_assoc, List.getLast?_concat, List.getLast?_concat] at hlast
      exact absurd (Option.some.inj hlast) hmarks.symm
    | @snoc rs' cs' r' s' h' hr' =>
      simp only [List.forall_mem_append, List.forall_mem_singleton] at hrs hs hs' hclash
      simp only [← List.append_assoc] at he
      obtain ⟨hfront, hrel⟩ := hrs.2 hs.2 hs'.2 hclash.2.2 hr hr'
        (.inr (h.closedBy.append p)) (.inr (h'.closedBy.append p'))
        (List.append_cancel_right he)
      obtain ⟨hp, hall⟩ := ih hrs.1 hs.1 hs'.1 (fun r hr => (hclash.1 r hr).1) h' hfront
      exact ⟨hp, List.rel_append hall (.cons hrel .nil)⟩

/-- Identities at the same end of a text are of references of one shape. -/
theorem Lawful.closing?_eq (hc : c.Lawful) (hr : r.Spelled) (hr' : r'.Spelled)
    (hs : c.identity r = .ok s) (hs' : c.identity r' = .ok s')
    (he : p ++ s.toList = p' ++ s'.toList) : closing? r = closing? r' := by
  have hlast := (hc.text hr hs).closing?_eq p
  rw [he, (hc.text hr' hs').closing?_eq p'] at hlast
  exact hlast.symm

theorem decisive_array (hc : c.Lawful) (hr : c.Decisive r) : c.Decisive (.array r) := by
  intro r' s s' p p' hspelled hspelled' hclash hs hs' hp hp' he
  have hshape := hc.closing?_eq hspelled hspelled' hs hs' he
  cases r' with
  | named name rs => cases rs <;> cases hshape
  | array r' =>
    obtain ⟨t, ht, rfl⟩ := identity_array_eq_ok.mp hs
    obtain ⟨t', ht', rfl⟩ := identity_array_eq_ok.mp hs'
    rw [String.toList_append, String.toList_append, ← List.append_assoc, ← List.append_assoc] at he
    have hfront := List.append_cancel_right he
    obtain ⟨rfl, hrel⟩ := hr hspelled.element hspelled'.element (fun h => hclash h.element) ht ht'
      hp hp' hfront
    exact ⟨rfl, .array hrel⟩

theorem decisive_named (hc : c.Lawful) (hrs : ∀ r ∈ rs, c.Decisive r) :
    c.Decisive (.named name rs) := by
  intro r' s s' p p' hr hr' hclash hs hs' hp hp' he
  have hshape := hc.closing?_eq hr hr' hs hs' he
  have htext := hc.text hr hs
  have htext' := hc.text hr' hs'
  generalize s.toList = cs at htext he
  generalize s'.toList = cs' at htext' he
  cases htext with
  | leaf hd hf =>
    cases htext' with
    | leaf hd' hf' =>
      have hclash' : ¬ (_ ∨ _) := fun h => hclash ⟨_, _, _, _, .here, .here, hd, hd', h⟩
      obtain ⟨rfl, rfl⟩ := hf.eq_of_openings hc hf' hclash' hp hp' he
      exact ⟨rfl, Reference.rel_named_iff.mpr ⟨⟨_, hd, hd'⟩, .nil⟩⟩
    | generic => rw [closing?_concat] at hshape; cases hshape
    | array => cases hshape
  | @generic _ d w base suffix cs rs q t hd hf ho hq =>
    cases htext' with
    | leaf => rw [closing?_concat] at hshape; cases hshape
    | @generic name' d' w' base' suffix' cs' rs' q' t' hd' hf' ho' hq' =>
      have hspelled := hr.arguments
      have hspelled' := hr'.arguments
      simp only [List.forall_mem_append, List.forall_mem_singleton] at hrs hspelled hspelled'
      simp only [← List.append_assoc] at he
      -- from the right: the last argument, the arguments before it, the name
      obtain ⟨hfront, hlast⟩ := hrs.2 hspelled.2 hspelled'.2
        (fun h => hclash (h.argument (by simp) (by simp))) hq hq' (.inr (ho.closedBy.append _))
        (.inr (ho'.closedBy.append _)) (List.append_cancel_right he)
      obtain ⟨hheads, hrel⟩ := ho.inj hrs.1 hspelled.1 hspelled'.1
        (fun r hr r' hr' h => hclash (h.argument (by simp [hr]) (by simp [hr']))) ho' hfront
      have hlength : (rs' ++ [q']).length = (rs ++ [q]).length := by simp [hrel.length_eq]
      rw [hlength] at hf'
      have hclash' : ¬ (_ ∨ _) := fun h => hclash ⟨_, _, _, _, .here, .here, hd, hd', h⟩
      obtain ⟨rfl, rfl⟩ := hf.eq_of_openings hc hf' hclash' hp hp'
        (by rwa [List.append_assoc, List.append_assoc] at hheads)
      exact ⟨rfl, Reference.rel_named_iff.mpr
        ⟨⟨_, hd, hd'⟩, List.rel_append hrel (.cons hlast .nil)⟩⟩
    | array => rw [closing?_concat] at hshape; cases hshape

theorem decisive (hc : c.Lawful) (r : Reference) : c.Decisive r := by
  induction r with
  | named name rs ih => exact decisive_named hc ih
  | array element ih => exact decisive_array hc ih

/-- Spelled references with the same identity are the same up to the names of their types, unless
they come upon types whose full names clash. -/
theorem Lawful.rel_of_identity_eq (hc : c.Lawful) (hr : r.Spelled) (hr' : r'.Spelled)
    (hclash : ¬ c.Clash r r') (hs : c.identity r = .ok s) (hs' : c.identity r' = .ok s) :
    Rel c.SameType r r' :=
  (c.decisive hc r hr hr' hclash hs hs' (.inl rfl) (.inl rfl) rfl).2

end Catalog
end SchemaGraph
