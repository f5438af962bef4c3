import Dice.Proofs.Reader.Longest

/-!
# Nothing is lost

The tokens of a text are cut off it one after another, each the longest at the head of what is left,
and there is no other way to do this. So they stand in the text apart from each other, by whole
characters, with nothing but blanks between them, and they and the blanks make up the text. The
first token that is asked for after all of them is the end.
-/

namespace Dice.Token

/-! ### Tokens one after another -/

/-- Some tokens are cut off a text that starts at a byte: blanks are passed over, and where there is
none the longest token is next. -/
inductive Cut : Nat → List Char → List Token → Prop
  | nil {start : Nat} : Cut start [] []
  | blank {start : Nat} {c : Char} {cs : List Char} {ts : List Token} :
    isBlank c → Cut (start + c.utf8Size) cs ts → Cut start (c :: cs) ts
  | token {t : Token} {rest : List Char} {ts : List Token} :
    (∀ c ∈ t.chars.head?, isBlank c = false) → Longest t.kind t.chars rest →
    Cut t.stop rest ts → Cut t.start (t.chars ++ rest) (t :: ts)

/-- The tokens that are read are cut off the text. -/
theorem cut_scan (start : Nat) (cs : List Char) :
  Cut start cs (scan start 0 cs)
  := by
  induction hlength : cs.length using Nat.strong_induction_on generalizing start cs with
  | _ n ih =>
    subst hlength
    cases cs with
    | nil => exact .nil
    | cons c cs =>
      by_cases hblank : isBlank c
      · rw [scan_blank hblank]
        exact .blank hblank (ih _ (Nat.lt_succ_self _) _ _ rfl)
      · have hblank := Bool.of_not_eq_true hblank
        obtain ⟨kind, front, rest, rfl, hlongest, h⟩ := exists_longest c cs
        rw [← List.cons_append, scan_longest start hblank hlongest]
        refine .token (t := ⟨kind, c :: front, start⟩) ?_ h (ih _ ?_ _ _ rfl)
        · rintro d ⟨⟩
          exact hblank
        · rw [List.length_cons, List.length_append]
          omega

theorem cut_ofText (cs : List Char) :
  Cut 0 cs (ofText cs)
  := cut_scan 0 cs

namespace Cut

variable {start : Nat} {cs : List Char} {ts : List Token}

/-- No other tokens can be cut off the text. -/
theorem scan_eq (h : Cut start cs ts) :
  scan start 0 cs = ts
  := by
  induction h with
  | nil => rfl
  | blank hblank _ ih => rw [scan_blank hblank, ih]
  | @token t rest ts hhead hlongest _ ih =>
    obtain ⟨kind, chars, start⟩ := t
    obtain ⟨c, front, rfl⟩ := List.exists_cons_of_ne_nil hlongest.ne_nil
    rw [scan_longest start (hhead c rfl) hlongest.longest_eq]
    exact congrArg (List.cons _) ih

theorem laid (h : Cut start cs ts) :
  Laid start cs ts
  := by
  rw [← h.scan_eq]
  exact laid_scan start 0 cs

/-- One of two tokens stops before the other one starts. -/
theorem apart (h : Cut start cs ts) {t u : Token} (ht : t ∈ ts) (hu : u ∈ ts) (hne : t ≠ u) :
  t.stop ≤ u.start ∨ u.stop ≤ t.start
  := by
  have hpairwise : ts.Pairwise fun t u => t.stop ≤ u.start ∨ u.stop ≤ t.start :=
    h.laid.pairwise.imp .inl
  have hsymm : Std.Symm fun t u : Token => t.stop ≤ u.start ∨ u.stop ≤ t.start :=
    ⟨fun _ _ => Or.symm⟩
  exact hpairwise.forall ht hu hne

/-- There are not more tokens than characters. -/
theorem length_le (h : Cut start cs ts) :
  ts.length ≤ cs.length
  := by
  induction h with
  | nil => exact Nat.le_refl 0
  | blank _ _ ih => exact Nat.le_succ_of_le ih
  | token _ hlongest _ ih =>
    have hpos := List.length_pos_of_ne_nil hlongest.ne_nil
    rw [List.length_cons, List.length_append]
    omega

end Cut

/-! ### One token at a time -/

/-- The next token of a text that starts at a byte, and the text behind it. -/
def next? (start : Nat) : List Char → Option (Token × List Char)
  | [] => none
  | c :: cs =>
    if isBlank c then next? (start + c.utf8Size) cs
    else
      let (kind, more) := longest c cs
      some (⟨kind, c :: cs.take more, start⟩, cs.drop more)

/-- The tokens of a text that starts at a byte, asked for one by one, if the end comes within so
many times. -/
def asked : Nat → Nat → List Char → Option (List Token)
  | 0, _, _ => none
  | n + 1, start, cs =>
    match next? start cs with
    | none => some []
    | some (t, rest) => (asked n t.stop rest).map (t :: ·)

theorem next?_token {t : Token} {rest : List Char}
    (hhead : ∀ c ∈ t.chars.head?, isBlank c = false) (h : Longest t.kind t.chars rest) :
  next? t.start (t.chars ++ rest) = some (t, rest)
  := by
  obtain ⟨kind, chars, start⟩ := t
  obtain ⟨c, front, rfl⟩ := List.exists_cons_of_ne_nil h.ne_nil
  rw [List.cons_append, next?, hhead c rfl, h.longest_eq]
  simp

/-- When all tokens were asked for, the next time is the end. -/
theorem Cut.asked_eq {start : Nat} {cs : List Char} {ts : List Token}
    (h : Cut start cs ts) {n : Nat} (hn : ts.length < n) :
  asked n start cs = some ts
  := by
  induction h generalizing n with
  | nil =>
    obtain ⟨n, rfl⟩ := Nat.exists_eq_succ_of_ne_zero (Nat.ne_zero_of_lt hn)
    rfl
  | blank hblank _ ih =>
    obtain ⟨m, rfl⟩ := Nat.exists_eq_succ_of_ne_zero (Nat.ne_zero_of_lt hn)
    rw [← ih hn, asked, asked, next?, if_pos hblank]
  | @token t rest ts hhead hlongest _ ih =>
    obtain ⟨m, rfl⟩ := Nat.exists_eq_succ_of_ne_zero (Nat.ne_zero_of_lt hn)
    rw [asked, next?_token hhead hlongest]
    simp only [ih (Nat.lt_of_succ_lt_succ hn), Option.map_some]

/-! ### A token between its neighbours -/

/-- A token stands between what is before it in a text and what is behind it, where it is the
longest, and there is no blank in it. An integer is a run of digits that neither follow a digit nor
are followed by one, or by a point, and a decimal is not followed by a digit. -/
structure Stands (t : Token) (before after : List Char) : Prop where
  start : t.start = byteLength before
  longest : Longest t.kind t.chars after
  solid : ∀ c ∈ t.chars, isBlank c = false
  integer : t.kind = .integer →
    (∀ c ∈ t.chars, c.isDigit) ∧ (∀ c ∈ before.getLast?, c.isDigit = false)
      ∧ ∀ c ∈ after.head?, c.isDigit = false ∧ c ≠ '.'
  decimal : t.kind = .decimal → ∀ c ∈ after.head?, c.isDigit = false

/-- The last character of a text is that of its second part, or of the first part if there is no
other. -/
theorem forall_getLast?_append {p : Char → Prop} {front back : List Char}
    (hback : ∀ c ∈ back.getLast?, p c) (hfront : back = [] → ∀ c ∈ front.getLast?, p c) :
  ∀ c ∈ (front ++ back).getLast?, p c
  := by
  intro c hc
  rw [List.getLast?_append] at hc
  cases hlast : back.getLast? with
  | none =>
    rw [hlast] at hc
    exact hfront (List.getLast?_eq_none_iff.1 hlast) c hc
  | some d =>
    rw [hlast] at hc
    cases hc
    exact hback _ hlast

/-- What is behind a token that ends in a digit begins with no integer. -/
theorem Longest.not_isDigit_of_integer {kind : Kind} {cs ds rest : List Char}
    (h : Longest kind cs (ds ++ rest)) (hds : Numeral .integer ds) :
  ∀ d ∈ cs.getLast?, d.isDigit = false
  := by
  intro d hd
  by_contra hdigit
  obtain ⟨c, ds, rfl, hc⟩ := hds.exists_cons
  have hnumeral := h.isNumeral_of_isDigit (List.mem_of_getLast? hd) (Bool.of_not_eq_false hdigit)
  have hnext := ((h.head?_of_isNumeral hnumeral).2 c rfl).1
  rw [hc] at hnext
  cases hnext

namespace Cut

variable {start : Nat} {cs : List Char} {ts : List Token}

/-- A token is the longest where it stands, and no digit stands right before an integer. -/
theorem exists_append (h : Cut start cs ts) {t : Token} (ht : t ∈ ts) :
  ∃ before after, cs = before ++ t.chars ++ after ∧ t.start = start + byteLength before
    ∧ Longest t.kind t.chars after
    ∧ (t.kind = .integer → ∀ c ∈ before.getLast?, c.isDigit = false)
  := by
  induction h with
  | nil => cases ht
  | @blank start c cs ts hblank _ ih =>
    obtain ⟨before, after, rfl, hstart, hlongest, hbefore⟩ := ih ht
    refine ⟨[c] ++ before, after, rfl, ?_, hlongest, ?_⟩
    · rw [hstart, byteLength_append, byteLength_cons, byteLength_nil, Nat.add_zero, Nat.add_assoc]
    · intro hinteger
      apply forall_getLast?_append (hbefore hinteger)
      rintro - d ⟨⟩
      exact (not_of_isBlank hblank).1
  | @token u rest ts _ hfirst _ ih =>
    rcases List.mem_cons.1 ht with rfl | ht
    · exact ⟨[], rest, rfl, rfl, hfirst, nofun⟩
    · obtain ⟨before, after, rfl, hstart, hlongest, hbefore⟩ := ih ht
      refine ⟨u.chars ++ before, after, by simp only [List.append_assoc], ?_, hlongest, ?_⟩
      · rw [hstart, stop, byteLength_append, Nat.add_assoc]
      · intro hinteger
        apply forall_getLast?_append (hbefore hinteger)
        rintro rfl
        rw [hinteger] at hlongest
        exact hfirst.not_isDigit_of_integer (hlongest.head?_of_isNumeral (.inl rfl)).1.integer

theorem isBlank_of_mem (h : Cut start cs ts) {t : Token} (ht : t ∈ ts) :
  ∀ c ∈ t.chars, isBlank c = false
  := by
  induction h with
  | nil => cases ht
  | blank _ _ ih => exact ih ht
  | token hhead hlongest _ ih =>
    rcases List.mem_cons.1 ht with rfl | ht
    · exact hlongest.isBlank_of_mem hhead
    · exact ih ht

/-- Every token stands where it is cut off. -/
theorem stands (h : Cut 0 cs ts) {t : Token} (ht : t ∈ ts) :
  ∃ before after, cs = before ++ t.chars ++ after ∧ t.Stands before after
  := by
  obtain ⟨before, after, hcs, hstart, hlongest, hbefore⟩ := h.exists_append ht
  refine ⟨before, after, hcs, ?_, hlongest, h.isBlank_of_mem ht, ?_, ?_⟩
  · rw [hstart, Nat.zero_add]
  · intro hinteger
    obtain ⟨hliteral, hafter⟩ := hlongest.head?_of_isNumeral (.inl hinteger)
    rw [hinteger] at hliteral
    refine ⟨List.all_eq_true.1 hliteral.integer.all_isDigit, hbefore hinteger, ?_⟩
    intro c hc
    exact ⟨(hafter c hc).1, (hafter c hc).2 hinteger⟩
  · intro hdecimal c hc
    exact ((hlongest.head?_of_isNumeral (.inr hdecimal)).2 c hc).1

/-- Wherever the word stands in a text, it is a token. -/
theorem die_mem (h : Cut start cs ts) {before after : List Char}
    (hcs : cs = before ++ (['!', 'd', 'i', 'e'] ++ after)) :
  ⟨.die, ['!', 'd', 'i', 'e'], start + byteLength before⟩ ∈ ts
  := by
  induction h generalizing before with
  | nil => cases before <;> cases hcs
  | @blank start c cs ts hblank _ ih =>
    cases before with
    | nil =>
      cases hcs
      cases hblank
    | cons d before =>
      obtain ⟨rfl, hbehind⟩ := List.cons.inj hcs
      rw [byteLength_cons, ← Nat.add_assoc]
      exact ih hbehind
  | @token t rest ts _ hlongest _ ih =>
    cases before with
    | nil =>
      obtain ⟨kind, chars, start⟩ := t
      obtain ⟨rfl, rfl, -⟩ := hlongest.unique (.word after) hcs
      exact List.mem_cons_self
    | cons b before =>
      -- The token ends before the word, as no token goes on over a mark.
      have hbefore : ∃ more, b :: before = t.chars ++ more
          ∧ rest = more ++ (['!', 'd', 'i', 'e'] ++ after) := by
        rcases List.append_eq_append_iff.1 hcs with ⟨more, hbefore, hrest⟩ | ⟨more, hchars, hword⟩
        · exact ⟨more, hbefore, hrest⟩
        · cases more with
          | nil => exact ⟨[], by simp [hchars], hword.symm⟩
          | cons c more =>
            have hmark := hlongest.mark_not_mem_tail
            obtain ⟨rfl, -⟩ := List.cons.inj hword
            rw [hchars] at hmark
            exact absurd (List.mem_append_right before List.mem_cons_self) hmark
      obtain ⟨more, hbefore, hrest⟩ := hbefore
      rw [hbefore, byteLength_append, ← Nat.add_assoc]
      exact List.mem_cons_of_mem t (ih hrest)

end Cut

/-! ### The text between the tokens -/

/-- The part of a text from one byte up to another. -/
def part (text : String) (start stop : Nat) : String :=
  String.Pos.Raw.extract text ⟨start⟩ ⟨stop⟩

/-- The part of a text that a token takes up. -/
def slice (text : String) (t : Token) : String :=
  part text t.start t.stop

/-- The parts of a text from a byte on that are before each of some tokens, and behind the last. -/
def gaps (text : String) (start : Nat) : List Token → List String
  | [] => [part text start text.utf8ByteSize]
  | t :: ts => part text start t.start :: gaps text t.stop ts

/-- Some tokens and the blanks between them make up a text. -/
structure Tiles (text : String) (ts : List Token) : Prop where
  nonempty : ∀ t ∈ ts, t.start < t.stop
  ordered : ts.Pairwise fun t u => t.start < u.start ∧ t.stop < u.stop ∧ t.stop ≤ u.start
  bounded : ∀ t ∈ ts, t.stop ≤ text.utf8ByteSize
  boundary : ∀ t ∈ ts,
    String.Pos.Raw.IsValid text ⟨t.start⟩ ∧ String.Pos.Raw.IsValid text ⟨t.stop⟩
  slice : ∀ t ∈ ts, t.slice text = .ofList t.chars
  blank : ∀ gap ∈ gaps text 0 ts, ∀ c ∈ gap.toList, c ∈ [' ', '\t', '\r', '\n']
  whole : String.join (List.zipWith (· ++ ·) (gaps text 0 ts) (ts.map (Token.slice text) ++ [""]))
    = text

/-- Characters end where the next ones start. -/
theorem isValid_of_append {text : String} {before after : List Char}
    (htext : text.toList = before ++ after) :
  String.Pos.Raw.IsValid text ⟨byteLength before⟩
  := by
  rw [String.Pos.Raw.isValid_iff_exists_append]
  refine ⟨.ofList before, .ofList after, ?_, ?_⟩
  · rw [← String.ofList_append, ← htext, String.ofList_toList]
  · rw [← utf8ByteSize_ofList]
    rfl

/-- Some characters in a text are the part from their start to their stop. -/
theorem part_eq {text : String} {before cs after : List Char}
    (htext : text.toList = before ++ cs ++ after) :
  part text (byteLength before) (byteLength (before ++ cs)) = .ofList cs
  := by
  have hlength : ∀ ds : List Char, byteLength ds = String.utf8Len ds := by
    intro ds
    rw [← utf8ByteSize_ofList, String.utf8ByteSize_ofList]
  rw [part, byteLength_append, hlength, hlength, ← String.ofList_toList (s := text), htext]
  exact String.extract_of_valid before cs after

/-- A token that stands in a text takes up its characters there. -/
theorem Stands.slice_eq {t : Token} {text : String} {before after : List Char}
    (h : t.Stands before after) (htext : text.toList = before ++ t.chars ++ after) :
  t.slice text = .ofList t.chars
  := by
  rw [slice, stop, h.start, ← byteLength_append]
  exact part_eq htext

/-- With the blanks before them, some tokens and the gaps between them make up the end of a text. -/
theorem Cut.gaps_spec {text : String} {start : Nat} {cs : List Char} {ts : List Token}
    (h : Cut start cs ts) (known blanks : List Char) (hstart : start = byteLength (known ++ blanks))
    (htext : text.toList = known ++ blanks ++ cs) (hblanks : ∀ c ∈ blanks, isBlank c) :
  (∀ gap ∈ gaps text (byteLength known) ts, ∀ c ∈ gap.toList, isBlank c)
    ∧ String.join (List.zipWith (· ++ ·) (gaps text (byteLength known) ts)
        (ts.map (Token.slice text) ++ [""])) = .ofList (blanks ++ cs)
  := by
  induction h generalizing known blanks with
  | nil =>
    have hend : text.utf8ByteSize = byteLength (known ++ blanks) := by
      rw [← byteLength_toList, htext, List.append_nil]
    rw [gaps, hend, part_eq htext, List.append_nil]
    refine ⟨?_, by simp⟩
    intro gap hmem
    obtain rfl := List.mem_singleton.1 hmem
    simpa using hblanks
  | @blank start c cs ts hblank _ ih =>
    have hblanks' : ∀ d ∈ blanks ++ [c], isBlank d :=
      List.forall_mem_append.2 ⟨hblanks, List.forall_mem_singleton.2 hblank⟩
    have hspec := ih known (blanks ++ [c]) (by simp [hstart, Nat.add_assoc]) (by simp [htext])
      hblanks'
    rwa [List.append_assoc] at hspec
  | @token t rest ts _ _ _ ih =>
    have hgap : part text (byteLength known) t.start = .ofList blanks := by
      rw [hstart]
      exact part_eq htext
    have hslice : t.slice text = .ofList t.chars := by
      rw [← List.append_assoc] at htext
      rw [slice, stop, hstart, ← byteLength_append]
      exact part_eq htext
    have hstop : t.stop = byteLength (known ++ blanks ++ t.chars) := by
      rw [stop, hstart, ← byteLength_append]
    obtain ⟨hblank, hjoin⟩ := ih (known ++ blanks ++ t.chars) []
      (by rw [hstop, List.append_nil]) (by simp [htext]) (List.forall_mem_nil _)
    rw [← hstop] at hblank hjoin
    rw [gaps, hgap, List.map_cons, hslice]
    constructor
    · refine List.forall_mem_cons.2 ⟨?_, hblank⟩
      simpa using hblanks
    · rw [List.cons_append, List.zipWith_cons_cons, String.join_cons, hjoin, List.nil_append,
        String.ofList_append, String.ofList_append, String.append_assoc]

theorem byteLength_pos {cs : List Char} (h : cs ≠ []) :
  0 < byteLength cs
  := by
  obtain ⟨c, cs, rfl⟩ := List.exists_cons_of_ne_nil h
  exact Nat.add_pos_left c.utf8Size_pos _

/-- The tokens of a text and the blanks between them make it up. -/
theorem tiles_ofText (text : String) :
  Tiles text (ofText text.toList)
  := by
  have hcut := cut_ofText text.toList
  have hnonempty : ∀ t ∈ ofText text.toList, t.start < t.stop := by
    intro t ht
    obtain ⟨before, after, -, hstands⟩ := hcut.stands ht
    exact Nat.lt_add_of_pos_right (byteLength_pos hstands.longest.ne_nil)
  obtain ⟨hblank, hwhole⟩ := hcut.gaps_spec [] [] rfl rfl (List.forall_mem_nil _)
  refine ⟨hnonempty, ?_, ?_, ?_, ?_, ?_, ?_⟩
  · apply hcut.laid.pairwise.imp_of_mem
    intro t u ht hu hle
    have ht := hnonempty t ht
    have hu := hnonempty u hu
    omega
  · intro t ht
    have hle := hcut.laid.stop_le ht
    rwa [Nat.zero_add, byteLength_toList] at hle
  · intro t ht
    obtain ⟨before, after, htext, hstands⟩ := hcut.stands ht
    have hbefore : text.toList = before ++ (t.chars ++ after) := by
      rw [htext, List.append_assoc]
    rw [stop, hstands.start, ← byteLength_append]
    exact ⟨isValid_of_append hbefore, isValid_of_append htext⟩
  · intro t ht
    obtain ⟨before, after, htext, hstands⟩ := hcut.stands ht
    exact hstands.slice_eq htext
  · intro gap hgap c hc
    have hc := hblank gap hgap c hc
    simpa [isBlank, or_assoc] using hc
  · rw [List.nil_append, String.ofList_toList] at hwhole
    exact hwhole

/-- The tokens of a text are the only ones that can be cut off it, each the longest where it stands.
They stand in the text one behind another, apart and by whole characters, with only blanks before,
between and behind them, and with these they make up the text. An integer is all digits that stand
together and is before no point, and a decimal is before no digit. The word is one token wherever it
stands, and no part of it is stray. There are not more tokens than characters, and the end comes
when one more is asked for. -/
theorem ofText_lossless (text : String) :
  (∀ ts, Cut 0 text.toList ts ↔ ts = ofText text.toList)
    ∧ Tiles text (ofText text.toList)
    ∧ (∀ t ∈ ofText text.toList, ∃ before after,
        text.toList = before ++ t.chars ++ after ∧ t.Stands before after)
    ∧ (∀ before after, text.toList = before ++ (['!', 'd', 'i', 'e'] ++ after) →
        ⟨.die, ['!', 'd', 'i', 'e'], byteLength before⟩ ∈ ofText text.toList
          ∧ ∀ t ∈ ofText text.toList, t.kind = .stray →
              t.stop ≤ byteLength before ∨ byteLength before + 4 ≤ t.start)
    ∧ (ofText text.toList).length ≤ text.length
    ∧ ∀ n, (ofText text.toList).length < n → asked n 0 text.toList = some (ofText text.toList)
  := by
  have hcut := cut_ofText text.toList
  refine ⟨?_, tiles_ofText text, fun t ht => hcut.stands ht, ?_, ?_, fun n hn => hcut.asked_eq hn⟩
  · intro ts
    constructor
    · intro h
      exact h.scan_eq.symm
    · rintro rfl
      exact hcut
  · intro before after htext
    have hdie := hcut.die_mem htext
    rw [Nat.zero_add] at hdie
    refine ⟨hdie, ?_⟩
    intro t ht hstray
    apply hcut.apart ht hdie
    rintro rfl
    cases hstray
  · rw [← String.length_toList]
    exact hcut.length_le

/-- A text with a character of two bytes before the word, and with a blank. -/
theorem ofText_lossless_accented :
  ofText "é!die1.5 7]".toList
      = [⟨.stray, ['é'], 0⟩, ⟨.die, ['!', 'd', 'i', 'e'], 2⟩, ⟨.decimal, ['1', '.', '5'], 6⟩,
        ⟨.integer, ['7'], 10⟩, ⟨.rightBracket, [']'], 11⟩]
    ∧ gaps "é!die1.5 7]" 0 (ofText "é!die1.5 7]".toList) = ["", "", "", " ", "", ""]
    ∧ Tiles "é!die1.5 7]" (ofText "é!die1.5 7]".toList)
    ∧ ⟨.die, ['!', 'd', 'i', 'e'], byteLength ['é']⟩ ∈ ofText "é!die1.5 7]".toList
    ∧ asked 6 0 "é!die1.5 7]".toList = some (ofText "é!die1.5 7]".toList)
  := by
  have htokens : ofText "é!die1.5 7]".toList
      = [⟨.stray, ['é'], 0⟩, ⟨.die, ['!', 'd', 'i', 'e'], 2⟩, ⟨.decimal, ['1', '.', '5'], 6⟩,
        ⟨.integer, ['7'], 10⟩, ⟨.rightBracket, [']'], 11⟩] := by
    decide
  obtain ⟨-, htiles, -, hdie, -, hends⟩ := ofText_lossless "é!die1.5 7]"
  refine ⟨htokens, ?_, htiles, (hdie ['é'] ['1', '.', '5', ' ', '7', ']'] rfl).1, hends 6 ?_⟩
  · rw [htokens]
    decide
  · rw [htokens]
    decide

end Dice.Token
