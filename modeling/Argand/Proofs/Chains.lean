import Argand.Proofs.Failure

/-!
Greedy reading loses nothing.

The grammar leaves a choice: a power behind a group may belong to the group, to the exponent that
the group ends or to the term around it, and an `i` behind a number may be left out.  The descent
never goes back on what it took.  It accepts the same tokens nevertheless, because all the choices
are about how the tokens are grouped and none is about which tokens there may be.

What there may be is a chain: operands with one binary operator between each two of them, whichever
it is.  An operand is a group, a conjugate, a number or a name, with any number of roots in front.

| | |
| :-- | :-- |
| `Derives.isChain` | whatever can be read freely, by whichever rule, is a chain |
| `reads_expression` | of a chain the descent takes all |

The second one holds of the parts of the descent as well, of which each takes an operand and some of
the links behind it, and so leaves links.  It makes no difference to the rest how many were taken.

Main statement: tokens are parsed exactly if the grammar derives them freely
(`parseTokens_accepts_iff_derives_free`).
-/

namespace Argand

/-! ## Chains -/

/-- The parts of an expression without its groupings. -/
inductive Part where
  | operand
  | chain
  /-- What follows an operand in a chain. -/
  | links

/-- The tokens are such a part. -/
inductive IsPart : Part → List Placed → Prop
  | group {opening closing ts} : IsPart .chain ts →
      IsPart .operand (⟨.opening, opening⟩ :: ts ++ [⟨.closing, closing⟩])
  | root {column ts} : IsPart .operand ts → IsPart .operand (⟨.radical, column⟩ :: ts)
  | conj {column opening closing ts} : IsPart .chain ts →
      IsPart .operand (⟨.conj, column⟩ :: ⟨.opening, opening⟩ :: ts ++ [⟨.closing, closing⟩])
  | real {lexeme column} : IsNumber lexeme → IsPart .operand [⟨.number lexeme, column⟩]
  | imaginary {lexeme column unit} : IsNumber lexeme →
      IsPart .operand [⟨.number lexeme, column⟩, ⟨.identifier 'i', unit⟩]
  | name {name column} : IsPart .operand [⟨.identifier name, column⟩]
  | chain {ts us} : IsPart .operand ts → IsPart .links us → IsPart .chain (ts ++ us)
  | done : IsPart .links []
  | link {token op column ts} : token.operator? = some op → IsPart .chain ts →
      IsPart .links (⟨token, column⟩ :: ts)

namespace IsPart

theorem single {ts : List Placed} (h : IsPart .operand ts) : IsPart .chain ts := by
  have hc := h.chain .done
  rwa [List.append_nil] at hc

/-- Everything but an operand can be continued. -/
theorem append_links {part : Part} {ts us : List Placed} (h : IsPart part ts) (hp : part ≠ .operand)
    (hu : IsPart .links us) : IsPart part (ts ++ us) := by
  induction h with
  | chain ho _ _ ihl =>
    rw [List.append_assoc]
    exact ho.chain (ihl nofun)
  | done => exact hu
  | link hop _ ih => exact .link hop (ih nofun)
  | _ => exact absurd rfl hp

/-- Two chains with an operator between them are one chain. -/
theorem join {token : Token} {op : BinaryOperator} {column : Nat} {ts us : List Placed}
    (hop : token.operator? = some op) (ht : IsPart .chain ts) (hu : IsPart .chain us) :
    IsPart .chain (ts ++ ⟨token, column⟩ :: us) :=
  ht.append_links nofun (.link hop hu)

/-- A root in front of a chain is a root in front of its first operand. -/
theorem root_chain {column : Nat} {ts : List Placed} (h : IsPart .chain ts) :
    IsPart .chain (⟨.radical, column⟩ :: ts) := by
  cases h with
  | chain ho hl => exact ho.root.chain hl

theorem chain_cases {tokens : List Placed} (h : IsPart .chain tokens) :
    ∃ ts us, tokens = ts ++ us ∧ IsPart .operand ts ∧ IsPart .links us := by
  cases h with
  | chain ho hl => exact ⟨_, _, rfl, ho, hl⟩

theorem links_cases {us : List Placed} (h : IsPart .links us) :
    us = [] ∨ ∃ token op column ts, us = ⟨token, column⟩ :: ts ∧ token.operator? = some op ∧
      IsPart .chain ts := by
  cases h with
  | done => exact .inl rfl
  | link hop hc => exact .inr ⟨_, _, _, _, rfl, hop, hc⟩

end IsPart

/-- What the grammar derives is a chain, whatever the rule and however it is read. -/
theorem Derives.isChain {reading : Reading} {rule : Rule} {tokens : List Placed}
    {next : Option Token}
    {tree : Expr} (h : Derives reading rule tokens next tree) : IsPart .chain tokens := by
  induction h with
  | ofTerm _ ih => exact ih
  | sum hop _ _ _ ihl ihr => exact .join hop ihl ihr
  | ofFactor _ ih => exact ih
  | product hop _ _ _ ihl ihr => exact .join hop ihl ihr
  | exponent _ _ ihl ihr => exact .join rfl ihl ihr
  | base _ _ ih => exact ih
  | chain _ _ ihl ihr => exact .join rfl ihl ihr
  | group _ _ ih => exact ih.group.single
  | @raisedGroup opening closing column ts us _ _ _ _ _ ihl ihr =>
    have hg : IsPart .chain (⟨.opening, opening⟩ :: ts ++ [⟨.closing, closing⟩]) := ihl.group.single
    have hj : IsPart .chain (_ ++ ⟨.power, column⟩ :: us) := hg.join rfl ihr
    rwa [List.append_assoc, List.singleton_append] at hj
  | root _ ih => exact ih.root_chain
  | conj _ ih => exact ih.conj.single
  | real hl _ => exact (IsPart.real hl).single
  | imaginary hl => exact (IsPart.imaginary hl).single
  | unit => exact IsPart.name.single
  | name _ => exact IsPart.name.single

/-! ## The descent through a chain -/

/-- Behind the chain stands a token that cannot go on with it, or none. -/
def EndsChain (stop : List Placed) : Prop :=
  ∀ t ∈ next stop, t.operator? = none ∧ t ≠ .identifier 'i'

theorem endsChain_closing (closing : Nat) (rest : List Placed) :
    EndsChain (⟨.closing, closing⟩ :: rest) := by
  rintro t ⟨⟩
  exact ⟨rfl, nofun⟩

/-- The token behind an operand is an operator of its chain or the one behind the chain, so no `i`.
-/
theorem next_links_ne {us stop : List Placed} (hu : IsPart .links us) (hs : EndsChain stop) :
    next (us ++ stop) ≠ some (.identifier 'i') := by
  intro h
  cases hu with
  | done => exact (hs _ h).2 rfl
  | link hop _ =>
    obtain rfl := Option.some.inj h
    cases hop

/-- No operator stands behind the chain. -/
theorem not_continues_of_endsChain {stop : List Placed} (hs : EndsChain stop) :
    (∀ t ∈ next stop, ¬t.continuesSum) ∧ ∀ t ∈ next stop, ¬t.continuesProduct := by
  constructor
  · rintro t ht ⟨op, hop, -⟩
    rw [(hs t ht).1] at hop
    cases hop
  · rintro t ht ⟨op, hop, -⟩
    rw [(hs t ht).1] at hop
    cases hop

/-- A part of the descent that begins with an operand takes it, and leaves some of the links. -/
def Leaves (outcome : Except ParseError (Expr × List Placed)) (stop : List Placed) : Prop :=
  ∃ tree us, outcome = .ok (tree, us ++ stop) ∧ IsPart .links us

/-- A part that goes on with all products leaves links that begin with no operator of a product. -/
def LeavesSums (outcome : Except ParseError (Expr × List Placed)) (stop : List Placed) : Prop :=
  ∃ tree us, outcome = .ok (tree, us ++ stop) ∧ IsPart .links us ∧
    ∀ t ∈ next (us ++ stop), ¬t.continuesProduct

/-- What is left before the end of the chain is shorter than the chain was. -/
theorem length_lt_of_bare {ts us stop : List Placed} {tree : Expr}
    {outcome : Except ParseError (Expr × Shorter (ts ++ stop))}
    (h : bare outcome = .ok (tree, us ++ stop)) : us.length < ts.length := by
  have hlt : (us ++ stop).length < (ts ++ stop).length := bound_of_bare h
  simpa only [List.length_append, Nat.add_lt_add_iff_right] using hlt

-- The induction is that of the descent.  What a rule leaves is shorter than what it got, so the
-- rules that go on with it are there by induction, whichever links were taken.
mutual

theorem reads_expression {ts stop : List Placed} (ht : IsPart .chain ts) (hs : EndsChain stop) :
    ∃ tree, bare (expression (ts ++ stop)) = .ok (tree, stop) := by
  obtain ⟨left, us, hl, hu, hp⟩ := reads_term ht hs
  have hlt : us.length < ts.length := length_lt_of_bare hl
  rw [bare_expression, hl]
  exact reads_sums left hu hs hp
termination_by (ts.length, 4)

theorem reads_sums (left : Expr) {us stop : List Placed} (hu : IsPart .links us)
    (hs : EndsChain stop)
    (hp : ∀ t ∈ next (us ++ stop), ¬t.continuesProduct) :
    ∃ tree, bare (sums left (us ++ stop)) = .ok (tree, stop) := by
  rcases hu.links_cases with hn | ⟨token, op, column, ts, he, hop, hc⟩
  · rw [hn]
    exact ⟨left, bare_sums_of_not (not_continues_of_endsChain hs).1 left⟩
  · have hlt : ts.length < us.length := by rw [he]; exact Nat.lt_succ_self _
    have ha : op.isAdditive := by
      rw [he] at hp
      exact Decidable.not_not.1 fun ha => hp token rfl ⟨op, hop, ha⟩
    obtain ⟨right, us', hr, hu', hp'⟩ := reads_term hc hs
    have hlt' : us'.length < ts.length := length_lt_of_bare hr
    rw [he, List.cons_append, bare_sums_of_operator hop ha, hr]
    exact reads_sums (.binary op left right column) hu' hs hp'
termination_by (us.length, 3)

theorem reads_term {ts stop : List Placed} (ht : IsPart .chain ts) (hs : EndsChain stop) :
    LeavesSums (bare (term (ts ++ stop))) stop := by
  obtain ⟨left, us, hl, hu⟩ := reads_factor ht hs
  have hlt : us.length < ts.length := length_lt_of_bare hl
  rw [bare_term, hl]
  exact reads_products left hu hs
termination_by (ts.length, 3)

theorem reads_products (left : Expr) {us stop : List Placed} (hu : IsPart .links us)
    (hs : EndsChain stop) :
    LeavesSums (bare (products left (us ++ stop))) stop := by
  rcases hu.links_cases with hn | ⟨token, op, column, ts, he, hop, hc⟩
  · rw [hn]
    exact ⟨left, [], bare_products_of_not (not_continues_of_endsChain hs).2 left, .done,
      (not_continues_of_endsChain hs).2⟩
  have hlt : ts.length < us.length := by rw [he]; exact Nat.lt_succ_self _
  by_cases ha : op.isAdditive
  · have hp : ∀ t ∈ next (us ++ stop), ¬t.continuesProduct := by
      rw [he]
      rintro t ⟨⟩
      exact not_continuesProduct hop (eq_of_isAdditive ha)
    exact ⟨left, us, bare_products_of_not hp left, hu, hp⟩
  rw [he, List.cons_append]
  rcases eq_of_not_isAdditive ha with hm | rfl
  · obtain ⟨right, us', hr, hu'⟩ := reads_factor hc hs
    have hlt' : us'.length < ts.length := length_lt_of_bare hr
    rw [bare_products_of_operator hop hm, hr]
    exact reads_products (.binary op left right column) hu' hs
  · obtain rfl := eq_power_of_operator? hop
    obtain ⟨right, us', hr, hu'⟩ := reads_power hc hs
    have hlt' : us'.length < ts.length := length_lt_of_bare hr
    rw [bare_products_of_power, hr]
    exact reads_products (.binary .pow left right column) hu' hs
termination_by (us.length, 2)

theorem reads_power {ts stop : List Placed} (ht : IsPart .chain ts) (hs : EndsChain stop) :
    Leaves (bare (power (ts ++ stop))) stop := by
  obtain ⟨base, us, hb, hu⟩ := reads_factor ht hs
  have hlt : us.length < ts.length := length_lt_of_bare hb
  rw [bare_power, hb]
  exact reads_raised base hu hs
termination_by (ts.length, 2)

theorem reads_raised (base : Expr) {us stop : List Placed} (hu : IsPart .links us)
    (hs : EndsChain stop) :
    Leaves (bare (raised base (us ++ stop))) stop := by
  by_cases hp : next (us ++ stop) = some .power
  · rcases hu.links_cases with hn | ⟨token, op, column, ts, he, hop, hc⟩
    · rw [hn] at hp
      have := (hs _ hp).1
      cases this
    · rw [he] at hp ⊢
      obtain rfl : token = .power := Option.some.inj hp
      have hlt : ts.length < us.length := by rw [he]; exact Nat.lt_succ_self _
      obtain ⟨exponent, us', hr, hu'⟩ := reads_power hc hs
      rw [List.cons_append, bare_raised_of_power, hr]
      exact ⟨.binary .pow base exponent column, us', rfl, hu'⟩
  · exact ⟨base, us, bare_raised_of_not hp base, hu⟩
termination_by (us.length, 1)

theorem reads_factor {ts stop : List Placed} (ht : IsPart .chain ts) (hs : EndsChain stop) :
    Leaves (bare (factor (ts ++ stop))) stop := by
  obtain ⟨os, us, he, ho, hu⟩ := ht.chain_cases
  have hi : next (us ++ stop) ≠ some (.identifier 'i') := next_links_ne hu hs
  rw [he, List.append_assoc]
  cases ho with
  | @group opening closing inner hc =>
    have hlt : inner.length < ts.length := by
      simp only [he, List.length_append, List.length_cons, List.length_nil]
      omega
    have hlt' : us.length < ts.length := by
      simp only [he, List.length_append, List.length_cons, List.length_nil]
      omega
    obtain ⟨tree, hr⟩ := reads_expression hc (endsChain_closing closing (us ++ stop))
    rw [List.append_assoc, List.singleton_append, List.cons_append, bare_factor_opening, hr]
    exact reads_raised tree hu hs
  | @root column operand ho =>
    have hlt : (operand ++ us).length < ts.length := by simp [he]
    obtain ⟨tree, us', hr, hu'⟩ := reads_factor (ho.chain hu) hs
    rw [List.append_assoc] at hr
    rw [List.cons_append, bare_factor_radical, hr]
    exact ⟨.unary .sqrt tree column, us', rfl, hu'⟩
  | @conj column opening closing inner hc =>
    have hlt : inner.length < ts.length := by
      simp only [he, List.length_append, List.length_cons, List.length_nil]
      omega
    obtain ⟨tree, hr⟩ := reads_expression hc (endsChain_closing closing (us ++ stop))
    rw [List.append_assoc, List.singleton_append, List.cons_append, List.cons_append,
      bare_factor_conj, hr]
    exact ⟨.unary .conj tree column, us, rfl, hu⟩
  | @real lexeme column hl =>
    exact ⟨_, us, bare_factor_number (ofText?_of_isNumber hl) hi column, hu⟩
  | @imaginary lexeme column unit hl =>
    exact ⟨_, us, bare_factor_imaginary (ofText?_of_isNumber hl) column unit _, hu⟩
  | @name name column => exact ⟨_, us, bare_factor_identifier name column _, hu⟩
termination_by (ts.length, 0)

end

/-! ## The language -/

theorem parseTokens_of_isChain {tokens : List Placed} (h : IsPart .chain tokens) :
    ∃ tree, parseTokens tokens = .ok tree := by
  have hend : EndsChain [] := nofun
  obtain ⟨tree, ht⟩ := reads_expression h hend
  rw [List.append_nil] at ht
  exact ⟨tree, parseTokens_eq_ok.2 ht⟩

/-- **Greedy reading loses nothing.**  Tokens are parsed exactly if the grammar derives them, with
the power behind a group and the `i` behind a number taken or left as one likes. -/
theorem parseTokens_accepts_iff_derives_free {tokens : List Placed} (hn : Numerals tokens) :
    (∃ tree, parseTokens tokens = .ok tree) ↔
      ∃ tree, Derives .free .expression tokens none tree := by
  constructor
  · rintro ⟨tree, h⟩
    exact ⟨tree, derives_free (derives_of_parseTokens hn h)⟩
  · rintro ⟨tree, h⟩
    exact parseTokens_of_isChain h.isChain

/-- The tokens of `√(x)**(y)**z`. -/
def rootOfRaisedGroups : List Placed :=
  [⟨.radical, 1⟩, ⟨.opening, 2⟩, ⟨.identifier 'x', 3⟩, ⟨.closing, 4⟩, ⟨.power, 5⟩, ⟨.opening, 7⟩,
    ⟨.identifier 'y', 8⟩, ⟨.closing, 9⟩, ⟨.power, 10⟩, ⟨.identifier 'z', 12⟩]

/-- They are derived as the root of `x`, raised to `y` and then to `z`.  The descent takes neither
power so, but it takes them. -/
theorem parseTokens_rootOfRaisedGroups :
    Numerals rootOfRaisedGroups ∧
      Derives .free .expression rootOfRaisedGroups none
        (.binary .pow (.binary .pow (.unary .sqrt (.var 'x' 3) 1) (.var 'y' 8) 5)
          (.var 'z' 12) 10) ∧
      ∃ tree, parseTokens rootOfRaisedGroups = .ok tree := by
  have hn : Numerals rootOfRaisedGroups := by
    intro lexeme column hm
    simp [rootOfRaisedGroups] at hm
  have name {c : Char} {column : Nat} {next : Option Token} (hc : c ≠ 'i') :
      Derives .free .factor [⟨.identifier c, column⟩] next (.var c column) := .name hc
  have omitted {first : Token} {next : Option Token} : Reading.free.MayOmit first next := trivial
  have group {c : Char} {opening column closing : Nat} {next : Option Token} (hc : c ≠ 'i') :
      Derives .free .factor [⟨.opening, opening⟩, ⟨.identifier c, column⟩, ⟨.closing, closing⟩] next
        (.var c column) := .group omitted (.ofTerm (.ofFactor (name hc)))
  have hroot : Derives .free .term
      [⟨.radical, 1⟩, ⟨.opening, 2⟩, ⟨.identifier 'x', 3⟩, ⟨.closing, 4⟩] (some .power)
      (.unary .sqrt (.var 'x' 3) 1) := .ofFactor (.root (group (by decide)))
  have hsquared : Derives .free .term
      [⟨.radical, 1⟩, ⟨.opening, 2⟩, ⟨.identifier 'x', 3⟩, ⟨.closing, 4⟩, ⟨.power, 5⟩,
        ⟨.opening, 7⟩, ⟨.identifier 'y', 8⟩, ⟨.closing, 9⟩] (some .power)
      (.binary .pow (.unary .sqrt (.var 'x' 3) 1) (.var 'y' 8) 5) :=
    hroot.exponent (.base omitted (group (by decide)))
  have h : Derives .free .expression rootOfRaisedGroups none
      (.binary .pow (.binary .pow (.unary .sqrt (.var 'x' 3) 1) (.var 'y' 8) 5) (.var 'z' 12) 10) :=
    .ofTerm (hsquared.exponent (.base omitted (name (by decide))))
  exact ⟨hn, h, (parseTokens_accepts_iff_derives_free hn).2 ⟨_, h⟩⟩

end Argand
