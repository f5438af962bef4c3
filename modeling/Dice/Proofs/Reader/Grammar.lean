import Dice.Proofs.Reader.Literal

/-!
# The grammar of values

A derivation of a value is a tree of signed numerals, lists and dice. Its rules tell tokens apart by
their kinds alone. No text has two derivations, and none has one that begins another's.
-/

namespace Dice

/-- A derivation of a value: a numeral with its sign, a list, or a die. -/
inductive Tree where
  | numeral (negative : Bool) (chars : List Char)
  | list (items : List Tree)
  | die (outcome faces : Tree)

/-- The tokens of `[',']`. -/
inductive Trailing : List Token → Prop
  | none : Trailing []
  | comma {c : Token} : c.kind = .comma → Trailing [c]

mutual

/-- The tokens of a value: `['-'] (integer | decimal)`, a list in brackets, or
`'{' '!die' ',' value ',' value '}'`. -/
inductive Derives : List Token → Tree → Prop
  | numeral {t : Token} : t.kind.IsNumeral → Derives [t] (.numeral false t.chars)
  | negative {m t : Token} : m.kind = .minus → t.kind.IsNumeral →
      Derives [m, t] (.numeral true t.chars)
  | list {l r : Token} {ts : List Token} {items : List Tree} :
    l.kind = .leftBracket → DerivesItems ts items → r.kind = .rightBracket →
      Derives (l :: (ts ++ [r])) (.list items)
  | die {l w c d r : Token} {ts us : List Token} {outcome faces : Tree} :
    l.kind = .leftBrace → w.kind = .die → c.kind = .comma → Derives ts outcome →
      d.kind = .comma → Derives us faces → r.kind = .rightBrace →
      Derives (l :: w :: c :: (ts ++ d :: (us ++ [r]))) (.die outcome faces)

/-- The tokens of `[value { ',' value } [',']]`. -/
inductive DerivesItems : List Token → List Tree → Prop
  | none : DerivesItems [] []
  | some {ts us cs : List Token} {item : Tree} {items : List Tree} :
    Derives ts item → DerivesMore us items → Trailing cs →
      DerivesItems (ts ++ (us ++ cs)) (item :: items)

/-- The tokens of `{ ',' value }`. -/
inductive DerivesMore : List Token → List Tree → Prop
  | nil : DerivesMore [] []
  | cons {c : Token} {ts us : List Token} {item : Tree} {items : List Tree} :
    c.kind = .comma → Derives ts item → DerivesMore us items →
      DerivesMore (c :: (ts ++ us)) (item :: items)

end

/-! ### Values of derivations -/

mutual

/-- The value that a derivation denotes, if its numerals are in range and its dice can be put
down. -/
def Tree.value? : Tree → Option Value
  | .numeral negative cs => (Number.ofLiteral? (signed negative cs)).map .number
  | .list items => (Tree.values? items).map .list
  | .die outcome faces =>
    outcome.value?.bind fun x =>
      faces.value?.bind fun f => (Die.ofValues x f).toOption.map Die.toValue

/-- The values that some derivations denote. -/
def Tree.values? : List Tree → Option (List Value)
  | [] => some []
  | item :: items => item.value?.bind fun v => (Tree.values? items).map fun vs => v :: vs

end

/-! ### Uniqueness -/

/-- A value begins with a token that may begin one. -/
theorem Derives.starts {ts : List Token} {tree : Tree} (h : Derives ts tree) :
  ∃ t us, ts = t :: us ∧ t.kind ∈ Value.starts
  := by
  have hnumeral : ∀ {kind : Token.Kind}, kind.IsNumeral → kind ∈ Value.starts := by
    rintro kind (rfl | rfl) <;> decide
  cases h with
  | numeral ht => exact ⟨_, _, rfl, hnumeral ht⟩
  | negative hm ht => exact ⟨_, _, rfl, hm ▸ by decide⟩
  | list hl hitems hr => exact ⟨_, _, rfl, hl ▸ by decide⟩
  | die hl hw hc houtcome hd hfaces hr => exact ⟨_, _, rfl, hl ▸ by decide⟩

/-- A value does not begin with a closing bracket. -/
theorem Derives.ne_rightBracket
    {t : Token} {ts us rest : List Token} {tree : Tree} (h : Derives us tree)
    (heq : t :: ts = us ++ rest) :
  t.kind ≠ .rightBracket
  := by
  obtain ⟨u, us, rfl, hu⟩ := h.starts
  obtain rfl := (List.cons.inj heq).1
  intro ht
  rw [ht] at hu
  revert hu
  decide

/-- The elements of a list end here, and other tokens come behind the list. -/
def Closing (ts rest : List Token) : Prop :=
  ∃ cs r, Trailing cs ∧ r.kind = .rightBracket ∧ ts = cs ++ r :: rest

theorem Closing.unique {ts rest rest' : List Token} (h : Closing ts rest) (h' : Closing ts rest') :
  rest = rest'
  := by
  obtain ⟨cs, r, hcs, hr, rfl⟩ := h
  obtain ⟨cs', r', hcs', hr', heq⟩ := h'
  cases hcs <;> cases hcs' <;> grind

/-- The elements do not end before one more. -/
theorem Closing.not_cons {c : Token} {ts us rest : List Token} {item : Tree}
    (hc : c.kind = .comma) (hitem : Derives us item) :
  ¬ Closing (c :: (us ++ ts)) rest
  := by
  rintro ⟨cs, r, hcs, hr, heq⟩
  cases hcs with
  | none => grind
  | comma hd =>
    apply hitem.ne_rightBracket (List.cons.inj heq).2.symm
    exact hr

mutual

/-- Of two values at the head of the same tokens, both have the same derivation, and the same comes
behind them. -/
theorem Derives.unique {us : List Token} {tree : Tree} : Derives us tree →
  ∀ {us' rest rest' : List Token} {tree' : Tree}, Derives us' tree' → us ++ rest = us' ++ rest' →
    tree = tree' ∧ rest = rest'
  | .numeral ht => by
    intro h' heq
    cases h' with
    | numeral ht' => grind
    | _ => grind [Token.Kind.IsNumeral]
  | .negative hm ht => by
    intro h' heq
    cases h' with
    | negative hm' ht' => grind
    | _ => grind [Token.Kind.IsNumeral]
  | .list hl hitems hr => by
    intro h' heq
    cases h' with
    | list hl' hitems' hr' =>
      simp only [List.cons_append, List.append_assoc, List.nil_append] at heq
      obtain ⟨rfl, rfl⟩ := hitems.unique hitems' hr hr' (List.cons.inj heq).2
      exact ⟨rfl, rfl⟩
    | _ => grind [Token.Kind.IsNumeral]
  | .die hl hw hc houtcome hd hfaces hr => by
    intro h' heq
    cases h' with
    | die hl' hw' hc' houtcome' hd' hfaces' hr' =>
      simp only [List.cons_append, List.append_assoc, List.nil_append, List.cons.injEq] at heq
      obtain ⟨-, -, -, heq⟩ := heq
      obtain ⟨rfl, heq⟩ := houtcome.unique houtcome' heq
      obtain ⟨rfl, heq⟩ := hfaces.unique hfaces' (List.cons.inj heq).2
      exact ⟨rfl, (List.cons.inj heq).2⟩
    | _ => grind [Token.Kind.IsNumeral]

theorem DerivesItems.unique {us : List Token} {items : List Tree} : DerivesItems us items →
  ∀ {us' rest rest' : List Token} {r r' : Token} {items' : List Tree}, DerivesItems us' items' →
    r.kind = .rightBracket → r'.kind = .rightBracket → us ++ r :: rest = us' ++ r' :: rest' →
    items = items' ∧ rest = rest'
  | .none => by
    intro h' hr hr' heq
    cases h' with
    | none => exact ⟨rfl, (List.cons.inj heq).2⟩
    | some hitem' hmore' hcs' =>
      rw [List.append_assoc] at heq
      cases hitem'.ne_rightBracket heq hr
  | .some hitem hmore hcs => by
    intro h' hr hr' heq
    cases h' with
    | none =>
      rw [List.append_assoc] at heq
      cases hitem.ne_rightBracket heq.symm hr'
    | some hitem' hmore' hcs' =>
      simp only [List.append_assoc] at heq
      obtain ⟨rfl, heq⟩ := hitem.unique hitem' heq
      obtain ⟨rfl, rfl⟩ := hmore.unique hmore' ⟨_, _, hcs, hr, rfl⟩ ⟨_, _, hcs', hr', rfl⟩ heq
      exact ⟨rfl, rfl⟩

theorem DerivesMore.unique {us : List Token} {items : List Tree} : DerivesMore us items →
  ∀ {us' ts ts' rest rest' : List Token} {items' : List Tree}, DerivesMore us' items' →
    Closing ts rest → Closing ts' rest' → us ++ ts = us' ++ ts' → items = items' ∧ rest = rest'
  | .nil => by
    intro h' hts hts' heq
    cases h' with
    | nil =>
      obtain rfl : _ = _ := heq
      exact ⟨rfl, hts.unique hts'⟩
    | cons hc' hitem' hmore' =>
      rw [List.nil_append, List.cons_append, List.append_assoc] at heq
      subst heq
      cases Closing.not_cons hc' hitem' hts
  | .cons hc hitem hmore => by
    intro h' hts hts' heq
    cases h' with
    | nil =>
      rw [List.nil_append, List.cons_append, List.append_assoc] at heq
      subst heq
      cases Closing.not_cons hc hitem hts'
    | cons hc' hitem' hmore' =>
      simp only [List.cons_append, List.append_assoc] at heq
      obtain ⟨rfl, heq⟩ := hitem.unique hitem' (List.cons.inj heq).2
      obtain ⟨rfl, rfl⟩ := hmore.unique hmore' hts hts' heq
      exact ⟨rfl, rfl⟩

end

end Dice
