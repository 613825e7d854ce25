/-
The location path of a query determines the query, provided that names are plain and that no text
holds the quote that closes it. A name is plain if it is not empty and holds neither white space
nor a character that the path itself is built from; a text between quotes may hold anything else,
the words and brackets that separate tests included.

The path is read from left to right. Each part is shown to be cut off in one way only: whatever
follows it, two texts that start with such a part and go on alike start with the same part.
-/
import ElementQuery.Proofs.Token.Lexes
import ElementQuery.Query.XPath

namespace ElementQuery

/-! ## Cutting off a run of characters -/

namespace Text

variable {as bs r s : List Char}

/-- A run of characters of a class ends where the class does. -/
theorem append_inj_of_head? {p : Char → Bool} (ha : ∀ c ∈ as, p c = true)
    (hb : ∀ c ∈ bs, p c = true) (hr : ∀ c ∈ r.head?, p c = false)
    (hs : ∀ c ∈ s.head?, p c = false) (h : as ++ r = bs ++ s) : as = bs ∧ r = s := by
  obtain ⟨hta, hda⟩ := Token.takeWhile_append_of_head? ha hr
  obtain ⟨htb, hdb⟩ := Token.takeWhile_append_of_head? hb hs
  rw [h] at hta hda
  exact ⟨hta.symm.trans htb, hda.symm.trans hdb⟩

/-- A text ends at the first character that does not stand in it. -/
theorem append_cons_inj {c : Char} (ha : c ∉ as) (hb : c ∉ bs) (h : as ++ c :: r = bs ++ c :: s) :
    as = bs ∧ r = s := by
  have hin : ∀ {cs : List Char}, c ∉ cs → ∀ x ∈ cs, (x != c) = true := by
    intro cs hc x hx
    rw [bne_iff_ne]
    rintro rfl
    exact hc hx
  obtain ⟨hab, hrs⟩ := append_inj_of_head? (p := (· != c)) (hin ha) (hin hb) (by simp) (by simp) h
  exact ⟨hab, (List.cons.inj hrs).2⟩

end Text

/-! ## Plain queries -/

/-- The characters that a location path is built from around names. -/
def pathSigns : List Char := "/[]'=,()@*".toList

/-- Whether a character can stand in a plain name. -/
def isNameChar (c : Char) : Bool := !Text.isBlank c && !pathSigns.contains c

/-- A name that is not empty and has no white space and no sign of a location path in it. -/
structure PlainName (name : String) : Prop where
  nonempty : name ≠ ""
  chars : ∀ c ∈ name.toList, isNameChar c = true

/-- A text without the quote that closes it. -/
def TextTest.Plain (t : TextTest) : Prop := '\x27' ∉ t.value.toList

/-- A step whose names and texts are plain. -/
structure Step.Plain (s : Step) : Prop where
  name : ∀ n ∈ s.name, PlainName n
  attributeNames : ∀ a ∈ s.attributes.toList, PlainName a.name
  attributeTexts : ∀ a ∈ s.attributes.toList, a.text.Plain
  text : ∀ t ∈ s.text, t.Plain

/-- A query whose names and texts are plain. -/
structure Query.Plain (q : Query) : Prop where
  target : q.target.Plain
  parent : ∀ p ∈ q.parent, p.Plain
  siblings : ∀ s ∈ q.siblings, PlainName s.name
  relatives : ∀ r ∈ q.relatives, PlainName r.name

/-! ## Tests -/

/-- A test of a step, before it is written. -/
inductive Test where
  | onAttribute (a : Attribute)
  | onText (t : TextTest)
  | hasSibling (s : Sibling)
  | hasRelative (r : Relative)
  | onPosition (p : Position)

/-- What a test is about and how it compares. -/
inductive TestForm where
  | onAttribute (kind : MatchKind)
  | onText (kind : MatchKind)
  | hasSibling (axis : SiblingAxis)
  | hasRelative (axis : RelativeAxis)
  | onPosition
  deriving DecidableEq

namespace TestForm

/-- All forms. -/
def all : List TestForm :=
  [onAttribute .exact, onAttribute .contains, onText .exact, onText .contains, hasSibling .following,
   hasSibling .preceding, hasRelative .descendant, hasRelative .ancestor, onPosition]

/-- What a test of a form starts with. -/
def lead : TestForm → String
  | onAttribute .exact => "@"
  | onAttribute .contains => "contains(@"
  | onText .exact => "text()='"
  | onText .contains => "contains(text(),'"
  | hasSibling axis => axis.word ++ "::"
  | hasRelative axis => axis.word ++ "::"
  | onPosition => "position()="

theorem mem_all (f : TestForm) : f ∈ all := by
  cases f with
  | onPosition => decide
  | _ x => cases x <;> decide

/-- The start of a test tells its form. -/
theorem lead_append_inj {f g : TestForm} {r s : List Char}
    (h : f.lead.toList ++ r = g.lead.toList ++ s) : f = g ∧ r = s := by
  -- no start is a prefix of another one, although several of them begin alike
  have hfree : ∀ f ∈ all, ∀ g ∈ all, f.lead.toList <+: g.lead.toList → f = g := by decide
  have hfg : f = g := by
    have hf : f.lead.toList <+: f.lead.toList ++ r := List.prefix_append _ _
    have hg : g.lead.toList <+: f.lead.toList ++ r := h ▸ List.prefix_append _ _
    rcases List.prefix_or_prefix_of_prefix hf hg with hp | hp
    · exact hfree f f.mem_all g g.mem_all hp
    · exact (hfree g g.mem_all f f.mem_all hp).symm
  subst hfg
  exact ⟨rfl, List.append_cancel_left h⟩

end TestForm

/-- The sign between an attribute and the text that it is compared with. -/
def MatchKind.sign : MatchKind → Char
  | exact => '='
  | contains => ','

/-- What follows the quote that closes a text. -/
def MatchKind.close : MatchKind → List Char
  | exact => []
  | contains => [')']

/-- A text after its opening quote, up to the end of the test. -/
def TextTest.body (t : TextTest) : List Char := t.value.toList ++ '\x27' :: t.kind.close

namespace Test

/-- The form of a test. -/
def form : Test → TestForm
  | onAttribute a => .onAttribute a.text.kind
  | onText t => .onText t.kind
  | hasSibling s => .hasSibling s.axis
  | hasRelative r => .hasRelative r.axis
  | onPosition _ => .onPosition

/-- A test as it is written. -/
def xpath : Test → String
  | onAttribute a => a.xpath
  | onText t => t.xpath "text()"
  | hasSibling s => s.xpath
  | hasRelative r => r.xpath
  | onPosition p => p.xpath

/-- What a test is written with after its start. -/
def body : Test → List Char
  | onAttribute a => a.name.toList ++ a.text.kind.sign :: '\x27' :: a.text.body
  | onText t => t.body
  | hasSibling s => s.name.toList
  | hasRelative r => r.name.toList
  | onPosition p => Nat.toDigits 10 p.value

/-- A test whose name and text are plain. -/
def Plain : Test → Prop
  | onAttribute a => PlainName a.name ∧ a.text.Plain
  | onText t => t.Plain
  | hasSibling s => PlainName s.name
  | hasRelative r => PlainName r.name
  | onPosition _ => True

theorem toList_xpath (t : Test) : t.xpath.toList = t.form.lead.toList ++ t.body := by
  cases t with
  | onAttribute a =>
    obtain ⟨name, value, kind⟩ := a
    cases kind <;> simp [xpath, Attribute.xpath, TextTest.xpath, form, body, TestForm.lead,
      TextTest.body, MatchKind.sign, MatchKind.close]
  | onText t =>
    obtain ⟨value, kind⟩ := t
    cases kind <;> simp [xpath, TextTest.xpath, form, body, TestForm.lead, TextTest.body,
      MatchKind.close]
  | hasSibling s => simp [xpath, Sibling.xpath, form, body, TestForm.lead]
  | hasRelative r => simp [xpath, Relative.xpath, form, body, TestForm.lead]
  | onPosition p =>
    simp only [xpath, Position.xpath, form, body, TestForm.lead, String.toList_append]
    exact congrArg _ Nat.toList_repr

end Test

/-! ## Reading a test -/

section

variable {r s : List Char}

/-- What can follow a test: the word that joins it to the next one, or the closing bracket. -/
def EndsTest (r : List Char) : Prop := r.head? = some ' ' ∨ r.head? = some ']'

theorem EndsTest.isNameChar (h : EndsTest r) : ∀ c ∈ r.head?, isNameChar c = false := by
  intro c hc
  rcases h with h | h <;> rw [h] at hc <;> cases hc <;> decide

/-- A name ends at the first character that cannot stand in it. -/
theorem PlainName.append_inj {m n : String} (hm : PlainName m) (hn : PlainName n)
    (hr : ∀ c ∈ r.head?, isNameChar c = false) (hs : ∀ c ∈ s.head?, isNameChar c = false)
    (h : m.toList ++ r = n.toList ++ s) : m = n ∧ r = s := by
  obtain ⟨hmn, hrs⟩ := Text.append_inj_of_head? hm.chars hn.chars hr hs h
  exact ⟨String.toList_inj.1 hmn, hrs⟩

/-- A text ends at the quote that closes it. -/
theorem TextTest.body_append_inj {t u : TextTest} (ht : t.Plain) (hu : u.Plain)
    (hkind : t.kind = u.kind) (h : t.body ++ r = u.body ++ s) : t = u ∧ r = s := by
  obtain ⟨v, k⟩ := t
  obtain ⟨w, k'⟩ := u
  obtain rfl : k = k' := hkind
  simp only [TextTest.body, List.append_assoc, List.cons_append] at h
  obtain ⟨hvw, hrest⟩ := Text.append_cons_inj ht hu h
  obtain rfl : v = w := String.toList_inj.1 hvw
  exact ⟨rfl, List.append_cancel_left hrest⟩

theorem Attribute.body_append_inj {a b : Attribute} (ha : (Test.onAttribute a).Plain)
    (hb : (Test.onAttribute b).Plain) (hkind : a.text.kind = b.text.kind)
    (h : (Test.onAttribute a).body ++ r = (Test.onAttribute b).body ++ s) : a = b ∧ r = s := by
  obtain ⟨m, t⟩ := a
  obtain ⟨n, u⟩ := b
  have hsign : ∀ (k : MatchKind) (rest : List Char), ∀ c ∈ (k.sign :: rest).head?,
      isNameChar c = false := by
    intro k rest c hc
    cases k <;> cases hc <;> decide
  simp only [Test.body, List.append_assoc, List.cons_append] at h
  obtain ⟨hmn, hrest⟩ := ha.1.append_inj hb.1 (hsign _ _) (hsign _ _) h
  obtain rfl : m = n := hmn
  simp only [List.cons.injEq] at hrest
  obtain ⟨rfl, hrs⟩ := TextTest.body_append_inj ha.2 hb.2 hkind hrest.2.2
  exact ⟨rfl, hrs⟩

theorem isNameChar_of_isDigit {c : Char} (h : c.isDigit = true) : isNameChar c = true := by
  have hsigns : ∀ d ∈ pathSigns, (!d.isDigit) = true := List.all_eq_true.1 (by decide)
  have hbounds := Token.toNat_of_isDigit h
  have hblank : Text.isBlank c = false := Token.isBlank_of_toNat (by omega)
  have hsign : c ∉ pathSigns := by
    intro hc
    have hc' := hsigns c hc
    rw [h] at hc'
    cases hc'
  simp [isNameChar, hblank, hsign]

theorem Position.body_append_inj {p q : Position} (hr : EndsTest r) (hs : EndsTest s)
    (h : (Test.onPosition p).body ++ r = (Test.onPosition q).body ++ s) : p = q ∧ r = s := by
  have hdigits : ∀ (n : Nat), ∀ c ∈ Nat.toDigits 10 n, isNameChar c = true :=
    fun n c hc => isNameChar_of_isDigit (Text.isDigit_of_mem_digits hc)
  obtain ⟨hpq, hrs⟩ := Text.append_inj_of_head? (hdigits p.value) (hdigits q.value) hr.isNameChar
    hs.isNameChar h
  have hread : some p.value = some q.value := by
    rw [← Text.readDigits?_digits p.value, ← Text.readDigits?_digits q.value, hpq]
  obtain ⟨n, _, _⟩ := p
  obtain ⟨m, _, _⟩ := q
  cases hread
  exact ⟨rfl, hrs⟩

/-- A test is cut off in one way: its start tells its form, and its form where it ends. -/
theorem Test.append_inj {t u : Test} (ht : t.Plain) (hu : u.Plain) (hr : EndsTest r)
    (hs : EndsTest s) (h : t.xpath.toList ++ r = u.xpath.toList ++ s) : t = u ∧ r = s := by
  rw [toList_xpath, toList_xpath, List.append_assoc, List.append_assoc] at h
  obtain ⟨hform, h⟩ := TestForm.lead_append_inj h
  cases t with
  | onAttribute a =>
    cases u with
    | onAttribute b =>
      obtain ⟨rfl, hrs⟩ := Attribute.body_append_inj ht hu (TestForm.onAttribute.inj hform) h
      exact ⟨rfl, hrs⟩
    | _ => cases hform
  | onText t =>
    cases u with
    | onText u =>
      obtain ⟨rfl, hrs⟩ := TextTest.body_append_inj ht hu (TestForm.onText.inj hform) h
      exact ⟨rfl, hrs⟩
    | _ => cases hform
  | hasSibling a =>
    cases u with
    | hasSibling b =>
      obtain ⟨m, axis⟩ := a
      obtain ⟨n, axis'⟩ := b
      obtain rfl : axis = axis' := TestForm.hasSibling.inj hform
      obtain ⟨rfl, hrs⟩ := PlainName.append_inj ht hu hr.isNameChar hs.isNameChar h
      exact ⟨rfl, hrs⟩
    | _ => cases hform
  | hasRelative a =>
    cases u with
    | hasRelative b =>
      obtain ⟨m, axis⟩ := a
      obtain ⟨n, axis'⟩ := b
      obtain rfl : axis = axis' := TestForm.hasRelative.inj hform
      obtain ⟨rfl, hrs⟩ := PlainName.append_inj ht hu hr.isNameChar hs.isNameChar h
      exact ⟨rfl, hrs⟩
    | _ => cases hform
  | onPosition p =>
    cases u with
    | onPosition q =>
      obtain ⟨rfl, hrs⟩ := Position.body_append_inj hr hs h
      exact ⟨rfl, hrs⟩
    | _ => cases hform

/-! ## Reading a step -/

/-- Tests after the first one, each after the word that joins it. -/
def moreTests (ts : List Test) : List Char := ts.flatMap fun t => " and ".toList ++ t.xpath.toList

/-- The tests of a step in brackets, nothing if there are none. -/
def bracketed : List Test → List Char
  | [] => []
  | t :: ts => '[' :: (t.xpath.toList ++ (moreTests ts ++ [']']))

theorem endsTest_moreTests (ts : List Test) : EndsTest (moreTests ts ++ ']' :: r) := by
  cases ts with
  | nil => exact .inr rfl
  | cons t ts => exact .inl rfl

theorem moreTests_append_inj {ts us : List Test} (ht : ∀ t ∈ ts, t.Plain) (hu : ∀ u ∈ us, u.Plain)
    (h : moreTests ts ++ ']' :: r = moreTests us ++ ']' :: s) : ts = us ∧ r = s := by
  -- after each test a space or a bracket tells whether another one follows
  induction ts generalizing us with
  | nil =>
    cases us with
    | nil => exact ⟨rfl, (List.cons.inj h).2⟩
    | cons u us => cases h
  | cons t ts ih =>
    cases us with
    | nil => cases h
    | cons u us =>
      rw [List.forall_mem_cons] at ht hu
      simp only [moreTests, List.flatMap_cons, List.append_assoc, List.append_cancel_left_eq] at h
      obtain ⟨rfl, hrest⟩ := Test.append_inj ht.1 hu.1 (endsTest_moreTests ts)
        (endsTest_moreTests us) h
      obtain ⟨rfl, hrs⟩ := ih ht.2 hu.2 hrest
      exact ⟨rfl, hrs⟩

/-- What can follow a step: the slash before the next one, or the end of the path. -/
def EndsStep (r : List Char) : Prop := r = [] ∨ r.head? = some '/'

theorem bracketed_append_inj {ts us : List Test} (ht : ∀ t ∈ ts, t.Plain) (hu : ∀ u ∈ us, u.Plain)
    (hr : EndsStep r) (hs : EndsStep s) (h : bracketed ts ++ r = bracketed us ++ s) :
    ts = us ∧ r = s := by
  have hopen : ∀ {r cs : List Char}, EndsStep r → r ≠ '[' :: cs := by
    rintro r cs (hr | hr) rfl <;> cases hr
  cases ts with
  | nil =>
    cases us with
    | nil => exact ⟨rfl, h⟩
    | cons u us => exact absurd h (hopen hr)
  | cons t ts =>
    cases us with
    | nil => exact absurd h.symm (hopen hs)
    | cons u us =>
      rw [List.forall_mem_cons] at ht hu
      simp only [bracketed, List.cons_append, List.append_assoc, List.cons.injEq, true_and,
        List.nil_append] at h
      obtain ⟨rfl, hrest⟩ := Test.append_inj ht.1 hu.1 (endsTest_moreTests ts)
        (endsTest_moreTests us) h
      obtain ⟨rfl, hrs⟩ := moreTests_append_inj ht.2 hu.2 hrest
      exact ⟨rfl, hrs⟩

/-- A step as it is written, by its name and its tests. -/
def stepChars (name : Option String) (ts : List Test) : List Char :=
  (name.getD "*").toList ++ bracketed ts

theorem toList_xpathOf (name : Option String) (ts : List Test) :
    (Step.xpathOf name (ts.map Test.xpath)).toList = stepChars name ts := by
  have hjoin : ∀ (t : Test) (ts : List Test),
      (" and ".intercalate ((t :: ts).map Test.xpath)).toList = t.xpath.toList ++ moreTests ts := by
    intro t ts
    induction ts generalizing t with
    | nil => simp [moreTests]
    | cons u ts ih =>
      rw [List.map_cons, List.map_cons, String.intercalate_cons_cons, ← List.map_cons,
        String.toList_append, String.toList_append, ih u]
      simp [moreTests]
  cases ts with
  | nil => simp [Step.xpathOf, stepChars, bracketed]
  | cons t ts =>
    rw [Step.xpathOf, String.toList_append, stepChars, if_neg (by simp), String.toList_append,
      String.toList_append, hjoin]
    simp [bracketed]

/-- A name is told from a star and from any other name, where a bracket, a slash or the end of the
path follows it. -/
theorem getD_append_inj {m n : Option String}
    (hm : ∀ x ∈ m, PlainName x) (hn : ∀ x ∈ n, PlainName x)
    (hr : ∀ c ∈ r.head?, isNameChar c = false) (hs : ∀ c ∈ s.head?, isNameChar c = false)
    (h : (m.getD "*").toList ++ r = (n.getD "*").toList ++ s) : m = n ∧ r = s := by
  have hstar : ∀ {x : String} {r s : List Char}, PlainName x → x.toList ++ r ≠ '*' :: s := by
    intro x r s hx heq
    cases hxs : x.toList with
    | nil => exact hx.nonempty (String.toList_eq_nil_iff.1 hxs)
    | cons c cs =>
      have hc := hx.chars c (hxs ▸ List.mem_cons_self)
      rw [hxs] at heq
      cases heq
      cases hc
  cases m with
  | none =>
    cases n with
    | none => exact ⟨rfl, (List.cons.inj h).2⟩
    | some x => exact absurd h.symm (hstar (hn x rfl))
  | some x =>
    cases n with
    | none => exact absurd h (hstar (hm x rfl))
    | some y =>
      obtain ⟨rfl, hrs⟩ := (hm x rfl).append_inj (hn y rfl) hr hs h
      exact ⟨rfl, hrs⟩

/-- A step is cut off in one way. -/
theorem stepChars_append_inj {m n : Option String} {ts us : List Test}
    (hm : ∀ x ∈ m, PlainName x) (hn : ∀ x ∈ n, PlainName x) (ht : ∀ t ∈ ts, t.Plain)
    (hu : ∀ u ∈ us, u.Plain) (hr : EndsStep r) (hs : EndsStep s)
    (h : stepChars m ts ++ r = stepChars n us ++ s) : m = n ∧ ts = us ∧ r = s := by
  have hends : ∀ {ts : List Test} {r : List Char}, EndsStep r →
      ∀ c ∈ (bracketed ts ++ r).head?, isNameChar c = false := by
    intro ts r hr c hc
    cases ts with
    | nil =>
      rcases hr with rfl | hr
      · cases hc
      · rw [bracketed, List.nil_append, hr] at hc
        cases hc
        decide
    | cons t ts =>
      cases hc
      decide
  rw [stepChars, stepChars, List.append_assoc, List.append_assoc] at h
  obtain ⟨hmn, hrest⟩ := getD_append_inj hm hn (hends hr) (hends hs) h
  obtain ⟨hts, hrs⟩ := bracketed_append_inj ht hu hr hs hrest
  exact ⟨hmn, hts, hrs⟩

end

/-! ## Reading a query -/

namespace Test

/-- The attribute that a test is on. -/
def attribute? : Test → Option Attribute
  | onAttribute a => some a
  | _ => none

/-- The text test that a test is. -/
def text? : Test → Option TextTest
  | onText t => some t
  | _ => none

/-- The sibling that a test asks for. -/
def sibling? : Test → Option Sibling
  | hasSibling s => some s
  | _ => none

/-- The relative that a test asks for. -/
def relative? : Test → Option Relative
  | hasRelative r => some r
  | _ => none

/-- The position that a test asks for. -/
def position? : Test → Option Position
  | onPosition p => some p
  | _ => none

end Test

namespace Step

/-- The tests of a step with siblings and relatives, in the order in which they are written. -/
def testList (s : Step) (siblings : List Sibling) (relatives : List Relative) : List Test :=
  s.attributes.toList.map .onAttribute ++ s.text.toList.map .onText ++
    siblings.map .hasSibling ++ relatives.map .hasRelative ++ s.position.toList.map .onPosition

theorem toList_xpath (s : Step) (siblings : List Sibling) (relatives : List Relative) :
    (s.xpath (siblings.map Sibling.xpath ++ relatives.map Relative.xpath)).toList =
      stepChars s.name (s.testList siblings relatives) := by
  have htests : s.tests (siblings.map Sibling.xpath ++ relatives.map Relative.xpath) =
      (s.testList siblings relatives).map Test.xpath := by
    simp [tests, testList, Test.xpath, Function.comp_def, Option.toList_map]
  rw [xpath, htests, toList_xpathOf]

variable {s s' : Step} {siblings siblings' : List Sibling} {relatives relatives' : List Relative}

theorem Plain.testList (hs : s.Plain) (hsib : ∀ x ∈ siblings, PlainName x.name)
    (hrel : ∀ x ∈ relatives, PlainName x.name) : ∀ t ∈ s.testList siblings relatives, t.Plain := by
  intro t ht
  simp only [Step.testList, List.mem_append, List.mem_map] at ht
  rcases ht with (((⟨a, ha, rfl⟩ | ⟨u, hu, rfl⟩) | ⟨x, hx, rfl⟩) | ⟨x, hx, rfl⟩) | ⟨p, -, rfl⟩
  · exact ⟨hs.attributeNames a ha, hs.attributeTexts a ha⟩
  · exact hs.text u (Option.mem_toList.1 hu)
  · exact hsib x hx
  · exact hrel x hx
  · trivial

/-- The tests of a step can be told apart by what they are on. -/
theorem testList_inj (h : s.testList siblings relatives = s'.testList siblings' relatives') :
    s.attributes = s'.attributes ∧ s.text = s'.text ∧ siblings = siblings' ∧
      relatives = relatives' ∧ s.position = s'.position := by
  have hnone : ∀ {α β : Type} (l : List α), l.filterMap (fun _ => (none : Option β)) = [] :=
    fun l => List.filterMap_eq_nil_iff.2 fun _ _ => rfl
  have hoption : ∀ {α : Type} {a b : Option α}, a.toList = b.toList → a = b := by
    intro α a b hab
    cases a <;> cases b <;> cases hab <;> rfl
  -- each part of the step is what one of the partial projections keeps of the tests
  have hattributes := congrArg (List.filterMap Test.attribute?) h
  have htext := congrArg (List.filterMap Test.text?) h
  have hsiblings := congrArg (List.filterMap Test.sibling?) h
  have hrelatives := congrArg (List.filterMap Test.relative?) h
  have hposition := congrArg (List.filterMap Test.position?) h
  simp only [testList, List.filterMap_append, List.filterMap_map, Function.comp_def,
    Test.attribute?, Test.text?, Test.sibling?, Test.relative?, Test.position?, hnone,
    List.filterMap_some, List.append_nil, List.nil_append]
    at hattributes htext hsiblings hrelatives hposition
  exact ⟨AttributeSet.ext hattributes, hoption htext, hsiblings, hrelatives, hoption hposition⟩

end Step

namespace Query

/-- The target step as it is written. -/
def targetChars (q : Query) : List Char :=
  stepChars q.target.name (q.target.testList q.siblings q.relatives)

theorem toList_xpath (q : Query) :
    q.xpath.toList = '/' :: '/' :: match q.parent with
      | some p => stepChars p.name (p.testList [] []) ++ '/' :: q.targetChars
      | none => q.targetChars := by
  have htarget : (q.target.xpath q.surroundings).toList = q.targetChars :=
    q.target.toList_xpath q.siblings q.relatives
  cases hp : q.parent with
  | none => simp [xpath, hp, htarget]
  | some p =>
    have hparent : (p.xpath []).toList = stepChars p.name (p.testList [] []) :=
      p.toList_xpath [] []
    simp [xpath, hp, htarget, hparent]

variable {q q' : Query}

/-- The target step, up to the end of the path, tells all but the parent. -/
theorem targetChars_inj (hq : q.Plain) (hq' : q'.Plain) (h : q.targetChars = q'.targetChars) :
    q.target = q'.target ∧ q.siblings = q'.siblings ∧ q.relatives = q'.relatives := by
  obtain ⟨hname, htests, -⟩ := stepChars_append_inj hq.target.name hq'.target.name
    (hq.target.testList hq.siblings hq.relatives) (hq'.target.testList hq'.siblings hq'.relatives)
    (.inl rfl) (.inl rfl) (congrArg (· ++ []) h)
  obtain ⟨hattributes, htext, hsiblings, hrelatives, hposition⟩ := Step.testList_inj htests
  exact ⟨Step.ext hname hattributes hposition htext, hsiblings, hrelatives⟩

/-- The path of a query with a parent step goes on after its first step, and that of a query
without one does not. -/
theorem parentChars_ne (hq : q.Plain) (hq' : q'.Plain) {p : Step} (hp : q'.parent = some p) :
    q.targetChars ≠ stepChars p.name (p.testList [] []) ++ '/' :: q'.targetChars := by
  intro h
  have hplain := hq'.parent p hp
  obtain ⟨-, -, hrest⟩ := stepChars_append_inj hq.target.name hplain.name
    (hq.target.testList hq.siblings hq.relatives) (hplain.testList (by simp) (by simp))
    (.inl rfl) (.inr rfl) ((List.append_nil _).trans h)
  cases hrest

/-- Plain queries have the same location path only if they are the same, in every name, text,
match kind, axis and position, in the order of the attributes, siblings and relatives, and in
whether there is a parent step. -/
theorem xpath_inj_of_plain (hq : q.Plain) (hq' : q'.Plain) : q.xpath = q'.xpath ↔ q = q' := by
  refine ⟨fun h => ?_, fun h => h ▸ rfl⟩
  have hchars := congrArg String.toList h
  rw [toList_xpath, toList_xpath] at hchars
  simp only [List.cons.injEq, true_and] at hchars
  obtain ⟨target, parent, siblings, relatives⟩ := q
  obtain ⟨target', parent', siblings', relatives'⟩ := q'
  cases parent with
  | none =>
    cases parent' with
    | none =>
      obtain ⟨rfl, rfl, rfl⟩ := targetChars_inj hq hq' hchars
      rfl
    | some p' => exact absurd hchars (parentChars_ne hq hq' rfl)
  | some p =>
    cases parent' with
    | none => exact absurd hchars.symm (parentChars_ne hq' hq rfl)
    | some p' =>
      have hp := hq.parent p rfl
      have hp' := hq'.parent p' rfl
      obtain ⟨hname, htests, hrest⟩ := stepChars_append_inj hp.name hp'.name
        (hp.testList (by simp) (by simp)) (hp'.testList (by simp) (by simp)) (.inr rfl) (.inr rfl)
        hchars
      obtain ⟨hattributes, htext, -, -, hposition⟩ := Step.testList_inj htests
      obtain ⟨rfl, rfl, rfl⟩ := targetChars_inj hq hq' (List.cons.inj hrest).2
      rw [Step.ext hname hattributes hposition htext]

/-- A text that reads like a join of two tests, and those two tests. -/
theorem xpath_inj_of_plain_joined :
    xpath ⟨⟨some "td", .empty, none, some ⟨"a and preceding-sibling::th", .exact⟩⟩, none, [], []⟩ ≠
      xpath ⟨⟨some "td", .empty, none, some ⟨"a", .exact⟩⟩, none, [⟨"th", .preceding⟩], []⟩ := by
  have htd : PlainName "td" := ⟨by decide, List.all_eq_true.1 (by decide)⟩
  have hth : PlainName "th" := ⟨by decide, List.all_eq_true.1 (by decide)⟩
  refine fun h => absurd ((xpath_inj_of_plain ?_ ?_).1 h) (by decide)
  · exact ⟨⟨by simpa using htd, by simp, by simp, by simp [TextTest.Plain]⟩, by simp, by simp,
      by simp⟩
  · exact ⟨⟨by simpa using htd, by simp, by simp, by simp [TextTest.Plain]⟩, by simp,
      by simpa using hth, by simp⟩

end Query

end ElementQuery
