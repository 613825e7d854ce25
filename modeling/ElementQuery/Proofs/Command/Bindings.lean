/-
The variables that arguments bind. An argument `NAME=VALUE` binds the name before its first equals
sign, without the white space around it, to the JSON value after it, or to the text after it if that
is no JSON; an argument without an equals sign or with a blank name is refused.

Main statement: the arguments are a map from names to values in which the last binding of a name
counts, and what the command answers depends on them through this map alone. The first argument that
is refused decides the answer before the predicate is looked at, and a predicate given as JSON is
answered as it is without any arguments.
-/
import ElementQuery.Command.Run
import ElementQuery.Proofs.Parser.Names
import ElementQuery.Proofs.Rows
import ElementQuery.Proofs.Text.Clean
import ElementQuery.Proofs.Token.Lexes

namespace ElementQuery

open Text (AllBlank)

/-! ## Equal look-ups -/

/-- Bindings in which the same is found under each name are the same to the parser. -/
theorem Parser.parseChars_eq_of_value? {b b' : Bindings} (hvalue : ∀ x, b.value? x = b'.value? x)
    (hfunction : ∀ x, b.function? x = b'.function? x) (cs : List Char) :
    parseChars b cs = parseChars b' cs := by
  unfold parseChars
  cases Token.tokenize cs with
  | error e => rfl
  | ok lexemes =>
    refine parseLexemes_eq_of_agreeOn ⟨?_, ?_, ?_⟩ _
    · exact fun x _ => hvalue x
    · exact fun x _ _ => hvalue x
    · exact fun x _ _ _ => hfunction x

namespace Command

/-! ## One argument -/

/-- The value that a text gives to a name: the one it is the JSON of, or else the text itself. -/
inductive Denotes (raw : String) : Json.Value → Prop
  | json {v : Json.Value} (h : Json.Value.ofText? raw = some v) : Denotes raw v
  | text (h : Json.Value.ofText? raw = none) : Denotes raw (.string raw)

/-- An argument that binds a name to a value. -/
inductive Binds (argument : String) : String × Json.Value → Prop
  | mk {before : List Char} {raw : String} {v : Json.Value}
      (h : argument.toList = before ++ '=' :: raw.toList) (hsign : '=' ∉ before)
      (hname : ¬ AllBlank before) (hv : Denotes raw v) :
      Binds argument (String.ofList (Text.trim before), v)

/-- An argument that is refused, and why: it has no equals sign, or a blank name before it. -/
inductive Misbinds (argument : String) : Failure → Prop
  | withoutValue (h : '=' ∉ argument.toList) : Misbinds argument (.bindingWithoutValue argument)
  | withoutName {before raw : List Char} (h : argument.toList = before ++ '=' :: raw)
      (hsign : '=' ∉ before) (hname : AllBlank before) :
      Misbinds argument (.bindingWithoutName argument)

/-- The first equals sign of a text divides it. -/
theorem splits_at_sign {before : List Char} (hsign : '=' ∉ before) (raw : List Char) :
    (before ++ '=' :: raw).takeWhile (· != '=') = before ∧
      (before ++ '=' :: raw).dropWhile (· != '=') = '=' :: raw := by
  refine Token.takeWhile_append_of_head? (fun c hc => ?_) (by simp)
  rw [bne_iff_ne]
  rintro rfl
  exact hsign hc

theorem exists_denotes (raw : String) : ∃ v, Denotes raw v := by
  cases h : Json.Value.ofText? raw with
  | none => exact ⟨_, .text h⟩
  | some v => exact ⟨v, .json h⟩

theorem Denotes.eq {raw : String} {v : Json.Value} (h : Denotes raw v) :
    (Json.Value.ofText? raw).getD (.string raw) = v := by
  cases h with
  | json h => rw [h, Option.getD_some]
  | text h => rw [h, Option.getD_none]

/-- Every argument binds a name or is refused. -/
theorem binds_or_misbinds (argument : String) :
    (∃ row, Binds argument row) ∨ ∃ failure, Misbinds argument failure := by
  by_cases hsign : '=' ∈ argument.toList
  · obtain ⟨before, raw, h, hbefore⟩ := List.eq_append_cons_of_mem hsign
    by_cases hname : AllBlank before
    · exact .inr ⟨_, .withoutName h hbefore hname⟩
    · obtain ⟨v, hv⟩ := exists_denotes (String.ofList raw)
      exact .inl ⟨_, .mk (by rwa [String.toList_ofList]) hbefore hname hv⟩
  · exact .inr ⟨_, .withoutValue hsign⟩

theorem Binds.readBinding {argument : String} {row : String × Json.Value}
    (h : Binds argument row) : readBinding argument = .ok row := by
  obtain @⟨before, raw, v, h, hsign, hname, hv⟩ := h
  obtain ⟨htake, hdrop⟩ := splits_at_sign hsign raw.toList
  simp only [Command.readBinding, h, htake, hdrop]
  rw [if_neg, String.ofList_toList, hv.eq]
  rwa [List.isEmpty_iff, Text.trim_eq_nil_iff]

theorem Misbinds.readBinding {argument : String} {failure : Failure}
    (h : Misbinds argument failure) : readBinding argument = .error failure := by
  cases h with
  | withoutValue h =>
    have hdrop : argument.toList.dropWhile (· != '=') = [] := by
      refine List.dropWhile_eq_nil_iff.2 fun c hc => ?_
      rw [bne_iff_ne]
      rintro rfl
      exact h hc
    simp only [Command.readBinding, hdrop]
  | @withoutName before raw h hsign hname =>
    obtain ⟨htake, hdrop⟩ := splits_at_sign hsign raw
    simp only [Command.readBinding, h, htake, hdrop]
    rw [if_pos]
    rwa [List.isEmpty_iff, Text.trim_eq_nil_iff]

/-- Reading an argument tells what it binds. -/
theorem readBinding_eq_ok_iff {argument : String} {row : String × Json.Value} :
    readBinding argument = .ok row ↔ Binds argument row := by
  refine ⟨fun h => ?_, Binds.readBinding⟩
  obtain ⟨row', hrow⟩ | ⟨failure, hfailure⟩ := binds_or_misbinds argument
  · rw [hrow.readBinding] at h
    cases h
    exact hrow
  · rw [hfailure.readBinding] at h
    cases h

/-- An argument binds one name to one value. -/
theorem Binds.unique {argument : String} {row row' : String × Json.Value}
    (h : Binds argument row) (h' : Binds argument row') : row = row' := by
  have heq : Except.ok row = Except.ok row' := h.readBinding.symm.trans h'.readBinding
  exact Except.ok.inj heq

/-! ## The last binding of a name -/

variable {vars vars' : List String} {a : String} {name : String} {v : Json.Value}

/-- All of the arguments bind a name. -/
def AllBind (vars : List String) : Prop := ∀ a ∈ vars, ∃ row, Binds a row

theorem AllBind.nil : AllBind [] := fun _ h => absurd h List.not_mem_nil

theorem AllBind.cons (ha : ∃ row, Binds a row) (hvars : AllBind vars) : AllBind (a :: vars) :=
  List.forall_mem_cons.2 ⟨ha, hvars⟩

theorem AllBind.append (hvars : AllBind vars) (hvars' : AllBind vars') : AllBind (vars ++ vars') :=
  List.forall_mem_append.2 ⟨hvars, hvars'⟩

/-- Of the arguments that bind a name, the last gives it a value. -/
def Gives (vars : List String) (name : String) (v : Json.Value) : Prop :=
  ∃ before a after, vars = before ++ a :: after ∧ Binds a (name, v) ∧
    ∀ b ∈ after, ∀ w, ¬ Binds b (name, w)

/-- Arguments that give the same values to the same names. -/
def SameGiven (vars vars' : List String) : Prop :=
  ∀ name v, Gives vars name v ↔ Gives vars' name v

/-- Arguments that do not all bind have a first one that is refused. -/
theorem exists_first_misbinds (h : ¬ AllBind vars) : ∃ before a after failure,
    vars = before ++ a :: after ∧ AllBind before ∧ Misbinds a failure := by
  induction vars with
  | nil => exact absurd .nil h
  | cons b vars ih =>
    obtain hrow | ⟨failure, hfailure⟩ := binds_or_misbinds b
    · have hvars : ¬ AllBind vars := fun hvars => h (.cons hrow hvars)
      obtain ⟨before, a, after, failure, rfl, hbefore, hfailure⟩ := ih hvars
      exact ⟨b :: before, a, after, failure, rfl, .cons hrow hbefore, hfailure⟩
    · exact ⟨[], b, vars, failure, rfl, .nil, hfailure⟩

theorem not_gives_nil : ¬ Gives [] name v := by
  rintro ⟨before, a, after, h, -⟩
  cases before <;> cases h

theorem gives_cons_iff_free : Gives (a :: vars) name v ↔
    Gives vars name v ∨ (∀ b ∈ vars, ∀ w, ¬ Binds b (name, w)) ∧ Binds a (name, v) := by
  constructor
  · rintro ⟨_ | ⟨_, before⟩, b, after, h, hb, hafter⟩
    · cases h
      exact .inr ⟨hafter, hb⟩
    · cases h
      exact .inl ⟨before, b, after, rfl, hb, hafter⟩
  · rintro (⟨before, b, after, rfl, hb, hafter⟩ | ⟨hvars, ha⟩)
    · exact ⟨a :: before, b, after, rfl, hb, hafter⟩
    · exact ⟨[], a, vars, rfl, ha, hvars⟩

/-- A name that no argument binds is a name that is given no value. -/
theorem free_iff_not_gives :
    (∀ b ∈ vars, ∀ w, ¬ Binds b (name, w)) ↔ ∀ w, ¬ Gives vars name w := by
  constructor
  · rintro h w ⟨before, b, after, rfl, hb, -⟩
    exact h b (by simp) w hb
  · intro h
    induction vars with
    | nil => exact fun b hb => absurd hb List.not_mem_nil
    | cons a vars ih =>
      simp only [gives_cons_iff_free, not_or, not_and] at h
      have hvars := ih fun w => (h w).1
      exact List.forall_mem_cons.2 ⟨fun w => (h w).2 hvars, hvars⟩

/-- Some arguments give a name what they give it without the first one, or, where that is nothing,
what the first one binds it to. -/
theorem gives_cons : Gives (a :: vars) name v ↔
    Gives vars name v ∨ (∀ w, ¬ Gives vars name w) ∧ Binds a (name, v) := by
  rw [gives_cons_iff_free, free_iff_not_gives]

theorem SameGiven.append (h : SameGiven vars vars') (before : List String) :
    SameGiven (before ++ vars) (before ++ vars') := by
  induction before with
  | nil => exact h
  | cons a before ih =>
    intro name v
    have hnone : (∀ w, ¬ Gives (before ++ vars) name w) ↔ ∀ w, ¬ Gives (before ++ vars') name w :=
      forall_congr' fun w => not_congr (ih name w)
    rw [List.cons_append, List.cons_append, gives_cons, gives_cons, ih name v, hnone]

/-- Neighbouring bindings of distinct names may change places. -/
theorem sameGiven_swap {a' name' : String} {v' : Json.Value} (ha : Binds a (name, v))
    (ha' : Binds a' (name', v')) (hne : name ≠ name') (vars : List String) :
    SameGiven (a :: a' :: vars) (a' :: a :: vars) := by
  intro x w
  have hapart : ∀ u u', Binds a (x, u) → ¬ Binds a' (x, u') := by
    intro u u' h h'
    cases ha.unique h
    cases ha'.unique h'
    exact hne rfl
  simp only [gives_cons]
  grind

/-- A binding of a name that a later argument binds again may be left out. -/
theorem sameGiven_overridden {b : String} {w : Json.Value} (ha : Binds a (name, v))
    (hb : b ∈ vars) (hbinds : Binds b (name, w)) : SameGiven (a :: vars) vars := by
  intro x u
  rw [gives_cons, or_iff_left]
  rintro ⟨hfree, hx⟩
  cases ha.unique hx
  exact free_iff_not_gives.2 hfree b hb w hbinds

/-! ## All arguments -/

theorem result_bindAll_cons (b : Bindings) (a : String) (vars : List String) :
    (bindAll b (a :: vars)).result = (readBinding a).bind fun row =>
      (bindAll (b.bind row.1 row.2) vars).result := by
  rw [bindAll, Logged.result_bind, Logged.result_ofResult]
  rfl

theorem result_bindAll {rows : List (String × Json.Value)} (h : List.Forall₂ Binds vars rows)
    (b : Bindings) :
    (bindAll b vars).result = .ok ⟨Rows.putAll Prod.fst b.values rows, b.functions⟩ := by
  induction h generalizing b with
  | nil => rfl
  | @cons a row vars rows hrow _ ih =>
    rw [result_bindAll_cons, hrow.readBinding]
    exact ih (b.bind row.1 row.2)

theorem AllBind.exists_rows (h : AllBind vars) : ∃ rows, List.Forall₂ Binds vars rows := by
  induction vars with
  | nil => exact ⟨[], .nil⟩
  | cons a vars ih =>
    obtain ⟨⟨row, hrow⟩, hvars⟩ := List.forall_mem_cons.1 h
    obtain ⟨rows, hrows⟩ := ih hvars
    exact ⟨row :: rows, .cons hrow hrows⟩

/-- The value that the last of the rows with a name has is the one that the arguments give. -/
theorem lookup_reverse_eq_some_iff {rows : List (String × Json.Value)}
    (h : List.Forall₂ Binds vars rows) (name : String) (v : Json.Value) :
    rows.reverse.lookup name = some v ↔ Gives vars name v := by
  induction h generalizing v with
  | nil => simp [not_gives_nil]
  | @cons a row vars rows hrow _ ih =>
    have hlast : [row].lookup name = some v ↔ Binds a (name, v) := by
      constructor
      · intro hlookup
        obtain ⟨rowName, value⟩ := row
        by_cases hname : name = rowName
        · subst hname
          rw [List.lookup_cons_self, Option.some.injEq] at hlookup
          rwa [← hlookup]
        · rw [List.lookup_cons, beq_false_of_ne hname] at hlookup
          cases hlookup
      · intro hv
        cases hrow.unique hv
        exact List.lookup_cons_self
    have hnone : rows.reverse.lookup name = none ↔ ∀ w, ¬ Gives vars name w := by
      rw [Option.eq_none_iff_forall_ne_some]
      exact forall_congr' fun w => not_congr (ih w)
    rw [List.reverse_cons, List.lookup_append, Option.or_eq_some_iff, ih, hnone, hlast, gives_cons]

/-- Arguments that give the same values to the same names bind alike. -/
theorem SameGiven.value? {rows rows' : List (String × Json.Value)} (h : SameGiven vars vars')
    (hrows : List.Forall₂ Binds vars rows) (hrows' : List.Forall₂ Binds vars' rows')
    (b : Bindings) (name : String) :
    Bindings.value? ⟨Rows.putAll Prod.fst b.values rows, b.functions⟩ name =
      Bindings.value? ⟨Rows.putAll Prod.fst b.values rows', b.functions⟩ name := by
  have hreverse : rows.reverse.lookup name = rows'.reverse.lookup name := by
    ext v
    rw [lookup_reverse_eq_some_iff hrows, lookup_reverse_eq_some_iff hrows', h name v]
  rw [Bindings.value?, Bindings.value?, Rows.lookup_putAll, Rows.lookup_putAll, hreverse]

theorem result_bindAll_of_misbinds {before after : List String} {failure : Failure}
    (hbefore : AllBind before) (h : Misbinds a failure) (b : Bindings) :
    (bindAll b (before ++ a :: after)).result = .error failure := by
  induction before generalizing b with
  | nil =>
    rw [List.nil_append, result_bindAll_cons, h.readBinding]
    rfl
  | cons c before ih =>
    obtain ⟨⟨row, hrow⟩, hbefore⟩ := List.forall_mem_cons.1 hbefore
    rw [List.cons_append, result_bindAll_cons, hrow.readBinding]
    exact ih hbefore (b.bind row.1 row.2)

/-! ## The command -/

/-- The text of the predicate, or why it cannot be read. -/
def Options.text (o : Options) (input : Except Failure String) : Except Failure String :=
  match o.predicate with
  | some source => .ok source
  | none => input

/-- What the command does with a predicate once it is loaded. -/
def conclude (o : Options) (e : Expr) : Task String := do
  if o.model then return (← build o.strict e).toJson.pretty
  else locate o.strict e

theorem result_run (o : Options) (input : Except Failure String) :
    (run o input).result = (load o input).result.bind fun e => (conclude o e).result := by
  have hconclude := Logged.result_bind (load o input) (conclude o)
  unfold run
  by_cases hwarn : (o.json.isSome && !o.vars.isEmpty) = true
  · rw [if_pos hwarn, Logged.result_bind, Logged.result_record]
    exact hconclude
  · rw [if_neg hwarn]
    exact hconclude

theorem result_load {o : Options} (hjson : o.json = none) (input : Except Failure String) :
    (load o input).result = (o.text input).bind fun source =>
      (bindAll .empty o.vars).result.bind fun b => (parseSource b source).result := by
  unfold load Options.text
  rw [hjson]
  cases o.predicate with
  | some source => simp only [Logged.result_bind, Logged.result_pure]
  | none => simp only [Logged.result_bind, Logged.result_ofResult]

theorem load_of_json {o : Options} (hjson : o.json.isSome) (vars vars' : List String)
    (input : Except Failure String) :
    load { o with vars := vars } input = load { o with vars := vars' } input := by
  obtain ⟨path, hpath⟩ := Option.isSome_iff_exists.1 hjson
  unfold load
  simp only [hpath]

/-- Of the arguments, what the command answers depends on what is loaded with them alone. -/
theorem result_run_congr {o : Options} {input : Except Failure String}
    (h : (load { o with vars := vars } input).result =
      (load { o with vars := vars' } input).result) :
    (run { o with vars := vars } input).result = (run { o with vars := vars' } input).result := by
  rw [result_run, result_run, h]
  rfl

theorem result_run_of_json {o : Options} (hjson : o.json.isSome) (vars vars' : List String)
    (input : Except Failure String) :
    (run { o with vars := vars } input).result = (run { o with vars := vars' } input).result :=
  result_run_congr (congrArg Logged.result (load_of_json hjson vars vars' input))

theorem SameGiven.result_load {o : Options} (hjson : o.json = none) (hvars : AllBind vars)
    (hvars' : AllBind vars') (h : SameGiven vars vars') (input : Except Failure String) :
    (load { o with vars := vars } input).result =
      (load { o with vars := vars' } input).result := by
  obtain ⟨rows, hrows⟩ := hvars.exists_rows
  obtain ⟨rows', hrows'⟩ := hvars'.exists_rows
  rw [Command.result_load (o := { o with vars := vars }) hjson,
    Command.result_load (o := { o with vars := vars' }) hjson]
  dsimp only
  rw [result_bindAll hrows, result_bindAll hrows']
  refine congrArg _ (funext fun source => ?_)
  have hparse := Parser.parseChars_eq_of_value? (h.value? hrows hrows' .empty) fun _ => rfl
  simp only [parseSource, Except.bind, hparse]

/-- What the command answers depends on well-formed arguments only through the value that the last
binding of each name gives it. -/
theorem SameGiven.result_run {o : Options} (hvars : AllBind vars)
    (hvars' : AllBind vars') (h : SameGiven vars vars') (input : Except Failure String) :
    (run { o with vars := vars } input).result = (run { o with vars := vars' } input).result := by
  by_cases hjson : o.json.isSome
  · exact result_run_of_json hjson vars vars' input
  · rw [Option.not_isSome_iff_eq_none] at hjson
    exact result_run_congr (h.result_load hjson hvars hvars' input)

theorem result_run_of_misbinds {o : Options} {input : Except Failure String} {source : String}
    {before after : List String} {failure : Failure} (hjson : o.json = none)
    (hsource : o.text input = .ok source) (hbefore : AllBind before) (h : Misbinds a failure) :
    (run { o with vars := before ++ a :: after } input).result = .error failure := by
  have htext : { o with vars := before ++ a :: after }.text input = .ok source := hsource
  have hload := result_load (o := { o with vars := before ++ a :: after }) hjson input
  rw [htext, result_bindAll_of_misbinds hbefore h] at hload
  rw [result_run, hload]
  rfl

/-- Arguments that bind count as a map from names to the values of their last bindings: those with
the same map are answered alike, so bindings of distinct names may change places, and a binding of a
name that is bound again later may be left out. Otherwise the first argument that is refused decides
the answer to a predicate text that can be read. A predicate given as JSON is answered alike with
all arguments. -/
theorem run_vars_last_wins (o : Options) (input : Except Failure String) :
    (∀ vars vars', AllBind vars → AllBind vars' → SameGiven vars vars' →
      (run { o with vars := vars } input).result =
        (run { o with vars := vars' } input).result) ∧
    (∀ before after a a' row row', AllBind before → AllBind after → Binds a row → Binds a' row' →
      row.1 ≠ row'.1 →
      (run { o with vars := before ++ a :: a' :: after } input).result =
        (run { o with vars := before ++ a' :: a :: after } input).result) ∧
    (∀ before after a a' name v v', AllBind before → AllBind after → Binds a (name, v) →
      a' ∈ after → Binds a' (name, v') →
      (run { o with vars := before ++ a :: after } input).result =
        (run { o with vars := before ++ after } input).result) ∧
    (∀ vars source, o.json = none → o.text input = .ok source → ¬ AllBind vars →
      ∃ before a after failure, vars = before ++ a :: after ∧ AllBind before ∧
        Misbinds a failure ∧ (run { o with vars := vars } input).result = .error failure) ∧
    (o.json.isSome → ∀ vars vars', (run { o with vars := vars } input).result =
      (run { o with vars := vars' } input).result) := by
  refine ⟨?same, ?swapped, ?overridden, ?refused, ?json⟩
  case same => exact fun vars vars' hvars hvars' h => h.result_run hvars hvars' input
  case swapped =>
    intro before after a a' row row' hbefore hafter ha ha' hne
    have hvars : AllBind (before ++ a :: a' :: after) :=
      hbefore.append (.cons ⟨row, ha⟩ (.cons ⟨row', ha'⟩ hafter))
    have hvars' : AllBind (before ++ a' :: a :: after) :=
      hbefore.append (.cons ⟨row', ha'⟩ (.cons ⟨row, ha⟩ hafter))
    exact ((sameGiven_swap ha ha' hne after).append before).result_run hvars hvars' input
  case overridden =>
    intro before after a a' name v v' hbefore hafter ha hmem ha'
    have hvars : AllBind (before ++ a :: after) := hbefore.append (.cons ⟨_, ha⟩ hafter)
    exact ((sameGiven_overridden ha hmem ha').append before).result_run hvars
      (hbefore.append hafter) input
  case refused =>
    intro vars source hjson hsource hvars
    obtain ⟨before, a, after, failure, rfl, hbefore, h⟩ := exists_first_misbinds hvars
    exact ⟨before, a, after, failure, rfl, hbefore, h,
      result_run_of_misbinds hjson hsource hbefore h⟩
  case json => exact fun hjson vars vars' => result_run_of_json hjson vars vars' input

/-- Two spellings of one name, a value with an equals sign in it, a name that is blank, and
arguments beside a predicate in JSON. -/
theorem run_vars_last_wins_trimmed :
    SameGiven ["n=a=b", "m=x", " n =c"] ["m=x", "n=c"] ∧
    (run ⟨some "n", none, ["n=a=b", "m=x", " n =c"], true, false, false⟩ (.ok "")).result =
      (run ⟨some "n", none, ["m=x", "n=c"], true, false, false⟩ (.ok "")).result ∧
    (run ⟨some "n", none, ["n=a=b", "m=x"], true, false, false⟩ (.ok "")).result =
      (run ⟨some "n", none, ["m=x", "n=a=b"], true, false, false⟩ (.ok "")).result ∧
    (run ⟨some "n", none, ["n=a=b", " n =c"], true, false, false⟩ (.ok "")).result =
      (run ⟨some "n", none, [" n =c"], true, false, false⟩ (.ok "")).result ∧
    (∃ before a after failure, ["m=x", " =c", "n"] = before ++ a :: after ∧ AllBind before ∧
      Misbinds a failure ∧
      (run ⟨some "n", none, ["m=x", " =c", "n"], true, false, false⟩ (.ok "")).result =
        .error failure) ∧
    (run ⟨none, some "-", ["n"], true, false, false⟩ (.ok "")).result =
      (run ⟨none, some "-", [], true, false, false⟩ (.ok "")).result := by
  have hn : Binds "n=a=b" ("n", .string "a=b") := readBinding_eq_ok_iff.1 (by cbv)
  have hm : Binds "m=x" ("m", .string "x") := readBinding_eq_ok_iff.1 (by cbv)
  have hspaced : readBinding " n =c" = .ok ("n", .string "c") := by cbv
  have htight : readBinding "n=c" = .ok ("n", .string "c") := by cbv
  have hlast : Binds " n =c" ("n", .string "c") := readBinding_eq_ok_iff.1 hspaced
  have hsame : SameGiven ["n=a=b", "m=x", " n =c"] ["m=x", "n=c"] := by
    have hend : SameGiven [" n =c"] ["n=c"] := fun name v => by
      simp only [gives_cons, ← readBinding_eq_ok_iff, hspaced, htight, not_gives_nil]
    intro name v
    exact (sameGiven_overridden hn (by simp) hlast name v).trans (hend.append ["m=x"] name v)
  have hblank : ¬ AllBind ["m=x", " =c", "n"] := by
    intro h
    obtain ⟨row, hrow⟩ := h " =c" (by simp)
    rw [← readBinding_eq_ok_iff] at hrow
    cases hrow
  have hspacedBinds : AllBind [" n =c"] := .cons ⟨_, hlast⟩ .nil
  obtain ⟨same, swapped, overridden, refused, -⟩ :=
    run_vars_last_wins ⟨some "n", none, [], true, false, false⟩ (.ok "")
  refine ⟨hsame, same _ _ (.cons ⟨_, hn⟩ (.cons ⟨_, hm⟩ hspacedBinds))
      (.cons ⟨_, hm⟩ (.cons ⟨_, readBinding_eq_ok_iff.1 htight⟩ .nil)) hsame,
    swapped [] [] _ _ _ _ .nil .nil hn hm (by decide),
    overridden [] _ _ _ _ _ _ .nil hspacedBinds hn (by simp) hlast,
    refused _ "n" rfl rfl hblank, ?_⟩
  exact (run_vars_last_wins ⟨none, some "-", [], true, false, false⟩ (.ok "")).2.2.2.2 rfl _ _

end Command

end ElementQuery
