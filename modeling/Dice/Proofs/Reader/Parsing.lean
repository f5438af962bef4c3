import Dice.Proofs.Reader.Grammar

/-!
# Parsing

The reader accepts the tokens of a value exactly where they have a derivation with a value, and it
comes to that value. What is derived is read, whatever is open and comes behind it; and where a
reading comes to an end, what it has read is derived.
-/

namespace Dice.Value

/-! ### Steps of a reading -/

theorem put_toOption (x f : Value) (pending : List Pending) :
  (put x f pending).toOption = (Die.ofValues x f).toOption.map fun d => close d.toValue pending
  := by
  unfold put
  cases Die.ofValues x f <;> rfl

namespace State.Awaits

variable {state : State} {kind : Token.Kind} {outcome : Except ReadError.Cause Progress}

theorem readFrom_eq (h : state.Awaits kind outcome) {t : Token} (ht : t.kind = kind)
    (ts : List Token) :
  (readFrom state (t :: ts)).toOption = outcome.toOption.bind (·.resume ts)
  := by
  rw [readFrom_cons, h.step_eq, if_pos ht]

/-- A reading that goes on has found the token. -/
theorem exists_of_isSome (h : state.Awaits kind outcome) {ts : List Token}
    (hread : (readFrom state ts).toOption.isSome) :
  ∃ t us, ts = t :: us ∧ t.kind = kind ∧ (outcome.toOption.bind (·.resume us)).isSome
  := by
  cases ts with
  | nil => cases hread
  | cons t us =>
    rw [readFrom_cons, h.step_eq] at hread
    by_cases ht : t.kind = kind
    · rw [if_pos ht] at hread
      exact ⟨t, us, rfl, ht, hread⟩
    · rw [if_neg ht] at hread
      cases hread

end State.Awaits

/-- A numeral that begins a value is read as the number that it denotes. -/
theorem step_value_of_isNumeral
    {t : Token} (ht : t.kind.IsNumeral) (hspelled : t.Spelled) (pending : List Pending) :
  ((State.value pending).step t).toOption
    = (Number.ofLiteral? (signed false t.chars)).map fun x => close (.number x) pending
  := by
  have hliteral := hspelled ht
  rcases ht with ht | ht
  · rw [ht] at hliteral
    rw [Number.ofLiteral?_integer false hliteral, ← closeNumeral_toOption, State.step, startValue,
      ht]
  · rw [ht] at hliteral
    rw [Number.ofLiteral?_decimal false hliteral, ← closeNumeral_toOption, State.step, startValue,
      ht]

/-- A numeral behind a minus sign is read as the number that it denotes with the sign. -/
theorem step_numeral_of_isNumeral
    {t : Token} (ht : t.kind.IsNumeral) (hspelled : t.Spelled) (pending : List Pending) :
  ((State.numeral pending).step t).toOption
    = (Number.ofLiteral? (signed true t.chars)).map fun x => close (.number x) pending
  := by
  have hliteral := hspelled ht
  rcases ht with ht | ht
  · rw [ht] at hliteral
    rw [Number.ofLiteral?_integer true hliteral, ← closeNumeral_toOption]
    simp only [State.step, ht]
  · rw [ht] at hliteral
    rw [Number.ofLiteral?_decimal true hliteral, ← closeNumeral_toOption]
    simp only [State.step, ht]

/-- Behind its elements, a list is closed. -/
theorem readFrom_closing
    {ts rest : List Token} (h : Closing ts rest) (vs : List Value) (pending : List Pending) :
  (readFrom (.separator vs pending) ts).toOption = (close (.list vs.reverse) pending).resume rest
  := by
  obtain ⟨cs, r, hcs, hr, rfl⟩ := h
  cases hcs with
  | none =>
    rw [List.nil_append, readFrom_cons]
    simp only [State.step, hr]
    rfl
  | comma hc =>
    rw [List.singleton_append, readFrom_cons]
    simp only [State.step, hc]
    change (readFrom (.item vs pending) (r :: rest)).toOption = _
    rw [readFrom_cons]
    simp only [State.step, hr]
    rfl

/-! ### What is derived is read -/

/-- An element of a list is read as a value within the list. -/
theorem readFrom_first
    {us rest : List Token} {tree : Tree} (h : Derives us tree) (vs : List Value)
    (pending : List Pending) :
  readFrom (.item vs pending) (us ++ rest) = readFrom (.value (.list vs :: pending)) (us ++ rest)
  := by
  obtain ⟨t, ts, rfl, -⟩ := h.starts
  have hhead : t :: (ts ++ rest) = t :: ts ++ rest := rfl
  apply readFrom_item
  apply h.ne_rightBracket hhead

/-- The brackets of a list around its elements. -/
theorem readFrom_brackets
    {l r : Token} {ts : List Token} {vs? : Option (List Value)} (hl : l.kind = .leftBracket)
    (hitems : ∀ pending rest, (readFrom (.item [] pending) (ts ++ r :: rest)).toOption
      = vs?.bind fun vs => (close (.list vs) pending).resume rest)
    (pending : List Pending) (rest : List Token) :
  (readFrom (.value pending) (l :: (ts ++ [r]) ++ rest)).toOption
    = (vs?.map .list).bind fun v => (close v pending).resume rest
  := by
  rw [List.cons_append, List.append_assoc, readFrom_cons]
  simp only [State.step, startValue, hl]
  change (readFrom (.item [] pending) (ts ++ r :: rest)).toOption = _
  rw [hitems, Option.bind_map]
  rfl

mutual

/-- What derives a value is read as the value, and reading it fails where it has none. -/
theorem readFrom_derives {us : List Token} {tree : Tree} : Derives us tree →
  (∀ t ∈ us, t.Spelled) → ∀ pending rest,
    (readFrom (.value pending) (us ++ rest)).toOption
      = tree.value?.bind fun v => (close v pending).resume rest
  | .numeral ht => by
    intro hspelled pending rest
    rw [List.singleton_append, readFrom_cons,
      step_value_of_isNumeral ht (hspelled _ List.mem_cons_self), Tree.value?, Option.bind_map,
      Option.bind_map]
    rfl
  | .negative hm ht => by
    intro hspelled pending rest
    rw [List.cons_append, List.singleton_append, readFrom_cons]
    simp only [State.step, startValue, hm]
    change (readFrom (.numeral pending) _).toOption = _
    rw [readFrom_cons, step_numeral_of_isNumeral ht
      (hspelled _ (List.mem_cons_of_mem _ List.mem_cons_self)), Tree.value?, Option.bind_map,
      Option.bind_map]
    rfl
  | .list hl hitems hr => by
    intro hspelled pending rest
    rw [List.forall_mem_cons, List.forall_mem_append] at hspelled
    exact readFrom_brackets hl (readFrom_items hitems hspelled.2.1 hr) pending rest
  | .die hl hw hc houtcome hd hfaces hr => by
    intro hspelled pending rest
    simp only [List.forall_mem_cons, List.forall_mem_append] at hspelled
    obtain ⟨-, -, -, htspelled, -, huspelled, -⟩ := hspelled
    simp only [List.cons_append, List.append_assoc, List.nil_append]
    rw [readFrom_cons]
    simp only [State.step, startValue, hl]
    change (readFrom (.word pending) _).toOption = _
    rw [(awaits_word pending).readFrom_eq hw]
    change (readFrom (.wordComma pending) _).toOption = _
    rw [(awaits_wordComma pending).readFrom_eq hc]
    change (readFrom (.value (.outcome :: pending)) _).toOption = _
    rw [readFrom_derives houtcome htspelled, Tree.value?, Option.bind_assoc]
    congr 1
    funext x
    change (readFrom (.outcomeComma x pending) _).toOption = _
    rw [(awaits_outcomeComma x pending).readFrom_eq hd]
    change (readFrom (.value (.faces x :: pending)) _).toOption = _
    rw [readFrom_derives hfaces huspelled, Option.bind_assoc]
    congr 1
    funext f
    change (readFrom (.brace x f pending) _).toOption = _
    rw [(awaits_brace x f pending).readFrom_eq hr, put_toOption, Option.bind_map, Option.bind_map]
    rfl

/-- The elements of a list are read, and the list is closed. -/
theorem readFrom_items {us : List Token} {items : List Tree} : DerivesItems us items →
  (∀ t ∈ us, t.Spelled) → ∀ {r : Token}, r.kind = .rightBracket → ∀ pending rest,
    (readFrom (.item [] pending) (us ++ r :: rest)).toOption
      = (Tree.values? items).bind fun vs => (close (.list vs) pending).resume rest
  | .none => by
    intro hspelled r hr pending rest
    rw [List.nil_append, readFrom_cons]
    simp only [State.step, hr]
    rfl
  | .some hitem hmore hcs => by
    intro hspelled r hr pending rest
    simp only [List.forall_mem_append] at hspelled
    obtain ⟨htspelled, huspelled, -⟩ := hspelled
    rw [List.append_assoc, readFrom_first hitem, readFrom_derives hitem htspelled, Tree.values?,
      Option.bind_assoc]
    congr 1
    funext v
    change (readFrom (.separator [v] pending) _).toOption = _
    rw [List.append_assoc, readFrom_more hmore huspelled, Option.bind_map]
    congr 1
    funext vs
    rw [readFrom_closing ⟨_, _, hcs, hr, rfl⟩, List.reverse_append, List.reverse_reverse]
    rfl

/-- The further elements of a list are read. -/
theorem readFrom_more {us : List Token} {items : List Tree} : DerivesMore us items →
  (∀ t ∈ us, t.Spelled) → ∀ vs pending rest,
    (readFrom (.separator vs pending) (us ++ rest)).toOption
      = (Tree.values? items).bind fun ws =>
          (readFrom (.separator (ws.reverse ++ vs) pending) rest).toOption
  | .nil => by
    intro hspelled vs pending rest
    rfl
  | .cons hc hitem hmore => by
    intro hspelled vs pending rest
    simp only [List.forall_mem_cons, List.forall_mem_append] at hspelled
    obtain ⟨-, htspelled, huspelled⟩ := hspelled
    rw [List.cons_append, List.append_assoc, readFrom_cons]
    simp only [State.step, hc]
    change (readFrom (.item vs pending) _).toOption = _
    rw [readFrom_first hitem, readFrom_derives hitem htspelled, Tree.values?, Option.bind_assoc]
    congr 1
    funext v
    change (readFrom (.separator (v :: vs) pending) _).toOption = _
    rw [readFrom_more hmore huspelled, Option.bind_map]
    congr 1
    funext ws
    rw [Function.comp_apply, List.reverse_cons, List.append_assoc, List.singleton_append]

end

/-! ### What is read is derived -/

/-- Where a value is read off the head of some tokens, it is derived, and the reading goes on. -/
def ReadsDerived (ts : List Token) : Prop :=
  (∀ t ∈ ts, t.Spelled) → ∀ pending, (readFrom (.value pending) ts).toOption.isSome →
    ∃ us rest tree v, ts = us ++ rest ∧ Derives us tree ∧ ((close v pending).resume rest).isSome

/-- Where further elements are read off the head of some tokens, they are derived, and the list is
closed. -/
def ReadsMore (ts : List Token) : Prop :=
  (∀ t ∈ ts, t.Spelled) → ∀ vs pending, (readFrom (.separator vs pending) ts).toOption.isSome →
    ∃ us ts' rest items, ts = us ++ ts' ∧ DerivesMore us items ∧ Closing ts' rest

theorem isSome_resume
    {us : List Token} {tree : Tree} (h : Derives us tree) (hspelled : ∀ t ∈ us, t.Spelled)
    {pending : List Pending} {rest : List Token}
    (hread : (readFrom (.value pending) (us ++ rest)).toOption.isSome) :
  ∃ v, ((close v pending).resume rest).isSome
  := by
  rw [readFrom_derives h hspelled] at hread
  cases hv : tree.value? with
  | none =>
    rw [hv] at hread
    cases hread
  | some v =>
    rw [hv] at hread
    exact ⟨v, hread⟩

/-- The numeral behind a minus sign. -/
theorem exists_negative
    {m : Token} {ts : List Token} (hm : m.kind = .minus) {pending : List Pending}
    (hread : (readFrom (.numeral pending) ts).toOption.isSome) :
  ∃ us rest tree, m :: ts = us ++ rest ∧ Derives us tree
  := by
  cases ts with
  | nil => cases hread
  | cons t ts =>
    by_cases ht : t.kind.IsNumeral
    · exact ⟨[m, t], ts, _, rfl, .negative hm ht⟩
    · rw [readFrom_cons] at hread
      simp only [State.step] at hread
      split at hread
      · rename_i hkind
        cases ht (.inl hkind)
      · rename_i hkind
        cases ht (.inr hkind)
      · cases hread

section

variable {ts : List Token} (hspelled : ∀ t ∈ ts, t.Spelled)

include hspelled

/-- The elements of a list, of which the first and the further ones are derived. -/
theorem exists_list {l : Token} (hl : l.kind = .leftBracket)
    (hvalue : ReadsDerived ts)
    (hmore : ∀ us : List Token, us.length < ts.length → ReadsMore us) {pending : List Pending}
    (hread : (readFrom (.item [] pending) ts).toOption.isSome) :
  ∃ us rest tree, l :: ts = us ++ rest ∧ Derives us tree
  := by
  cases ts with
  | nil => cases hread
  | cons t ts =>
    by_cases ht : t.kind = .rightBracket
    · exact ⟨[l, t], ts, .list [], rfl, .list hl .none ht⟩
    · rw [readFrom_item [] pending ts ht] at hread
      obtain ⟨us, rest, tree, v, heq, htree, hresume⟩ := hvalue hspelled _ hread
      rw [heq, List.forall_mem_append] at hspelled
      have hshorter : rest.length < (t :: ts).length := by
        obtain ⟨u, us, rfl, -⟩ := htree.starts
        simp only [heq, List.cons_append, List.length_cons, List.length_append]
        omega
      obtain ⟨us', ts', rest', items, rfl, hitems, cs, r, hcs, hr, rfl⟩ :=
        hmore rest hshorter hspelled.2 _ _ hresume
      refine ⟨l :: ((us ++ (us' ++ cs)) ++ [r]), rest', .list (tree :: items), ?_,
        .list hl (.some htree hitems hcs) hr⟩
      rw [heq]
      simp only [List.cons_append, List.append_assoc, List.nil_append]

/-- The parts of a die, of which the outcome and the faces are derived. -/
theorem exists_die {l : Token} (hl : l.kind = .leftBrace)
    (hvalue : ∀ us : List Token, us.length < ts.length → ReadsDerived us) {pending : List Pending}
    (hread : (readFrom (.word pending) ts).toOption.isSome) :
  ∃ us rest tree, l :: ts = us ++ rest ∧ Derives us tree
  := by
  obtain ⟨w, ts, rfl, hw, hread⟩ := (awaits_word pending).exists_of_isSome hread
  obtain ⟨c, ts, rfl, hc, hread⟩ := (awaits_wordComma pending).exists_of_isSome hread
  simp only [List.forall_mem_cons] at hspelled
  have hshort : ts.length < (w :: c :: ts).length := by
    simp only [List.length_cons]
    omega
  obtain ⟨us, rest, outcome, x, rfl, houtcome, hread⟩ := hvalue ts hshort hspelled.2.2 _ hread
  obtain ⟨d, rest, rfl, hd, hread⟩ := (awaits_outcomeComma x pending).exists_of_isSome hread
  simp only [List.forall_mem_append, List.forall_mem_cons] at hspelled
  have hshorter : rest.length < (w :: c :: (us ++ d :: rest)).length := by
    simp only [List.length_cons, List.length_append]
    omega
  obtain ⟨us', rest', faces, f, rfl, hfaces, hread⟩ :=
    hvalue rest hshorter hspelled.2.2.2.2 _ hread
  obtain ⟨r, rest, rfl, hr, -⟩ := (awaits_brace x f pending).exists_of_isSome hread
  refine ⟨l :: w :: c :: (us ++ d :: (us' ++ [r])), rest, .die outcome faces, ?_,
    .die hl hw hc houtcome hd hfaces hr⟩
  simp only [List.cons_append, List.append_assoc, List.nil_append]

end

theorem readsDerived_of_shorter
    {ts : List Token} (hvalue : ∀ us : List Token, us.length < ts.length → ReadsDerived us)
    (hmore : ∀ us : List Token, us.length < ts.length → ReadsMore us) :
  ReadsDerived ts
  := by
  intro hspelled pending hread
  cases ts with
  | nil => cases hread
  | cons t ts =>
    have hderived : ∃ us rest tree, t :: ts = us ++ rest ∧ Derives us tree := by
      have hrest := (List.forall_mem_cons.1 hspelled).2
      rw [readFrom_cons] at hread
      cases ht : t.kind with
      | integer => exact ⟨[t], ts, _, rfl, .numeral (.inl ht)⟩
      | decimal => exact ⟨[t], ts, _, rfl, .numeral (.inr ht)⟩
      | minus =>
        simp only [State.step, startValue, ht] at hread
        exact exists_negative ht hread
      | leftBracket =>
        simp only [State.step, startValue, ht] at hread
        apply exists_list hrest ht (hvalue ts (Nat.lt_succ_self _)) _ hread
        intro us hus
        exact hmore us (Nat.lt_succ_of_lt hus)
      | leftBrace =>
        simp only [State.step, startValue, ht] at hread
        apply exists_die hrest ht _ hread
        intro us hus
        exact hvalue us (Nat.lt_succ_of_lt hus)
      | _ =>
        simp only [State.step, startValue, ht] at hread
        cases hread
    obtain ⟨us, rest, tree, heq, htree⟩ := hderived
    rw [heq] at hread hspelled
    obtain ⟨v, hresume⟩ := isSome_resume htree (List.forall_mem_append.1 hspelled).1 hread
    exact ⟨us, rest, tree, v, heq, htree, hresume⟩

theorem readsMore_of_shorter
    {ts : List Token} (hvalue : ∀ us : List Token, us.length < ts.length → ReadsDerived us)
    (hmore : ∀ us : List Token, us.length < ts.length → ReadsMore us) :
  ReadsMore ts
  := by
  intro hspelled vs pending hread
  cases ts with
  | nil => cases hread
  | cons t ts =>
    rw [readFrom_cons] at hread
    simp only [State.step] at hread
    split at hread
    · rename_i ht
      change (readFrom (.item vs pending) ts).toOption.isSome at hread
      cases ts with
      | nil => cases hread
      | cons u ts =>
        by_cases hu : u.kind = .rightBracket
        · exact ⟨[], t :: u :: ts, ts, [], rfl, .nil, [t], u, .comma ht, hu, rfl⟩
        · rw [readFrom_item vs pending ts hu] at hread
          have hrest := (List.forall_mem_cons.1 hspelled).2
          obtain ⟨us, rest, tree, v, heq, htree, hresume⟩ :=
            hvalue (u :: ts) (Nat.lt_succ_self _) hrest _ hread
          rw [heq, List.forall_mem_append] at hrest
          have hshorter : rest.length < (t :: u :: ts).length := by
            rw [heq, List.length_cons, List.length_append]
            omega
          obtain ⟨us', ts', rest', items, rfl, hitems, hclosing⟩ :=
            hmore rest hshorter hrest.2 _ _ hresume
          refine ⟨t :: (us ++ us'), ts', rest', tree :: items, ?_, .cons ht htree hitems, hclosing⟩
          rw [heq, List.cons_append, List.append_assoc]
    · rename_i ht
      exact ⟨[], t :: ts, ts, [], rfl, .nil, [], t, .none, ht, rfl⟩
    · cases hread

/-- A value that is read off the head of some tokens is derived from them. -/
theorem readsDerived (ts : List Token) :
  ReadsDerived ts
  := by
  have hboth : ∀ n, ∀ us : List Token, us.length < n → ReadsDerived us ∧ ReadsMore us := by
    intro n
    induction n with
    | zero =>
      intro us hus
      cases hus
    | succ n ih =>
      intro us hus
      have hvalue : ∀ ts : List Token, ts.length < us.length → ReadsDerived ts := by
        intro ts hts
        apply (ih ts (Nat.lt_of_lt_of_le hts (Nat.le_of_lt_succ hus))).1
      have hmore : ∀ ts : List Token, ts.length < us.length → ReadsMore ts := by
        intro ts hts
        apply (ih ts (Nat.lt_of_lt_of_le hts (Nat.le_of_lt_succ hus))).2
      exact ⟨readsDerived_of_shorter hvalue hmore, readsMore_of_shorter hvalue hmore⟩
  exact (hboth _ ts (Nat.lt_succ_self _)).1

/-! ### Texts -/

/-- Tokens make up a value exactly when they have a derivation that denotes it. -/
theorem ofTokens_iff {ts : List Token} (hspelled : ∀ t ∈ ts, t.Spelled) (v : Value) :
  ofTokens ts = .ok v ↔ ∃ tree, Derives ts tree ∧ tree.value? = some v
  := by
  constructor
  · intro hread
    have hwhole : read ts = .ok (v, []) := by
      rw [ofTokens] at hread
      split at hread
      · cases hread
      · rename_i heq
        cases hread
        exact heq
      · cases hread
    rw [read] at hwhole
    have hsome : (readFrom (.value []) ts).toOption.isSome := by
      rw [hwhole]
      rfl
    obtain ⟨us, rest, tree, w, rfl, htree, -⟩ := readsDerived ts hspelled [] hsome
    have hvalue := readFrom_derives htree (List.forall_mem_append.1 hspelled).1 [] rest
    rw [hwhole] at hvalue
    cases htv : tree.value? with
    | none =>
      rw [htv] at hvalue
      cases hvalue
    | some w =>
      rw [htv] at hvalue
      cases hvalue
      rw [List.append_nil]
      exact ⟨tree, htree, htv⟩
  · rintro ⟨tree, htree, htv⟩
    have hread := readFrom_derives htree hspelled [] []
    rw [htv, List.append_nil] at hread
    rw [ofTokens, read, eq_ok_of_toOption hread]

/-- A text denotes the values of the derivations of its tokens. -/
theorem ofText_iff (s : String) (v : Value) :
  ofText s = .ok v ↔ ∃ tree, Derives (Token.ofText s.toList) tree ∧ tree.value? = some v
  := by
  have hspelled : ∀ t ∈ Token.ofText s.toList, t.Spelled := fun t ht => Token.spelled_of_mem ht
  rw [← ofTokens_iff hspelled, ofText]
  cases ofTokens (Token.ofText s.toList) with
  | error e => simp only [Except.mapError, reduceCtorEq]
  | ok w => simp only [Except.mapError, Except.ok.injEq]

/-- A text is accepted exactly when all of its tokens have a derivation that denotes a value, and is
read as that value. There is no other derivation. In it, an integer that fits the 64-bit integers
with its sign denotes just that integer, and any other numeral a double, which has to be finite. -/
theorem ofText_iff_derives (s : String) :
  (∀ v, ofText s = .ok v ↔ ∃ tree, Derives (Token.ofText s.toList) tree ∧ tree.value? = some v)
    ∧ (∀ tree tree', Derives (Token.ofText s.toList) tree →
      Derives (Token.ofText s.toList) tree' → tree = tree')
    ∧ ∀ t ∈ Token.ofText s.toList, t.kind.IsNumeral → ∀ negative,
      (∀ n, t.IsInt64 negative n →
        (Tree.numeral negative t.chars).value? = some (.number (.int n)))
      ∧ ((¬ ∃ n, t.IsInt64 negative n) →
        (Tree.numeral negative t.chars).value?
          = ((Decimal.toFloat? (signed negative t.chars)).filter Float.isFinite).map
              fun x => .number (.float x))
  := by
  refine ⟨?_, ?_, ?_⟩
  · apply ofText_iff
  · intro tree tree' h h'
    have heq : Token.ofText s.toList ++ [] = Token.ofText s.toList ++ [] := rfl
    exact (h.unique h' heq).1
  · intro t ht hkind negative
    have hliteral := Token.spelled_of_mem ht hkind
    rw [Tree.value?]
    constructor
    · intro n hn
      rw [Number.ofLiteral?_of_isInt64 hliteral hn]
      rfl
    · intro hn
      rw [Number.ofLiteral?_of_not_isInt64 hliteral hkind hn, Option.map_map]
      rfl

end Dice.Value
