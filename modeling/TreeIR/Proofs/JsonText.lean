import TreeIR.Json.Parser
import TreeIR.Json.Printer

/-!
# The tokens of a printed text

A printed value comes in two layouts that differ in nothing but blanks. The
scanner does not care about blanks, so the two have the same tokens, and those
follow the value: `Json.tokens`.

`Spells` is what connects a text with its tokens: blanks anywhere, punctuation
and strings as they stand, and a bare word wherever something follows that ends
it. The scanner returns the tokens that a text spells (`tokens?_of_spells`),
and each layout is spelled out by going through the value once. Numbers are the
one sort of word whose text does not matter here, and a value without any of
them and with no key twice is `Plain`.
-/

namespace TreeIR.Json

/-- Nothing follows, or something that ends a bare word. -/
def Bounded (cs : List Char) : Prop :=
  ∀ c ∈ cs.head?, endsWord c = true

/-- A text and the tokens that it is made of. -/
inductive Spells : List Char → List Token → Prop
  | nil : Spells [] []
  | blank {c : Char} {cs : List Char} {ts : List Token} (hc : isBlank c = true)
      (h : Spells cs ts) : Spells (c :: cs) ts
  | mark {c : Char} {t : Token} {cs : List Char} {ts : List Token}
      (hc : punctuation? c = some t) (h : Spells cs ts) : Spells (c :: cs) (t :: ts)
  | str (s : String) {cs : List Char} {ts : List Token} (h : Spells cs ts) :
      Spells ((quote s).toList ++ cs) (.str s :: ts)
  | word {c : Char} {w cs : List Char} {t : Token} {ts : List Token}
      (hword : word? (c :: w) = some t) (hw : ∀ d ∈ c :: w, endsWord d = false)
      (hcs : Bounded cs) (h : Spells cs ts) : Spells (c :: w ++ cs) (t :: ts)

/-! ## Scanning what is spelled

A scan is followed from the middle of a text, with the tokens it has found so far, so that
the spellings of two tokens in a row can be scanned one after the other. -/

/-- The tokens of a text whose scan is under way. -/
def Scanned.onwards (s : Scanned) (cs : List Char) : Option (List Token) :=
  (cs.foldlM step s).bind finish

theorem onwards_cons (s : Scanned) (c : Char) (cs : List Char) :
    s.onwards (c :: cs) = (s.step c).bind (·.onwards cs) := by
  rw [Scanned.onwards, List.foldlM_cons]
  exact Option.bind_assoc _ _ _

theorem onwards_of_step {s s' : Scanned} {c : Char} {cs : List Char}
    (h : s.step c = some s') : s.onwards (c :: cs) = s'.onwards cs := by
  rw [onwards_cons, h]
  rfl

theorem isBlank_of_punctuation? {c : Char} {t : Token} (h : punctuation? c = some t) :
    isBlank c = false ∧ c ≠ '"' := by
  have hmem : c ∈ ['[', ']', '\x7b', '\x7d', ',', ':'] := by
    simp only [punctuation?] at h
    grind
  have hmarks : ∀ d ∈ ['[', ']', '\x7b', '\x7d', ',', ':'], isBlank d = false ∧ d ≠ '"' := by
    simp [isBlank]
  exact hmarks c hmem

theorem onwards_blank {ts : List Token} {c : Char} {cs : List Char} (hc : isBlank c = true) :
    Scanned.onwards ⟨ts, .between⟩ (c :: cs) = Scanned.onwards ⟨ts, .between⟩ cs := by
  refine onwards_of_step ?_
  rw [Scanned.step, scanChar, scanBetween, if_pos hc]
  rfl

theorem onwards_mark {ts : List Token} {c : Char} {t : Token} {cs : List Char}
    (hc : punctuation? c = some t) :
    Scanned.onwards ⟨ts, .between⟩ (c :: cs) = Scanned.onwards ⟨t :: ts, .between⟩ cs := by
  obtain ⟨hblank, hquote⟩ := isBlank_of_punctuation? hc
  refine onwards_of_step ?_
  rw [Scanned.step, scanChar, scanBetween, if_neg (by rw [hblank]; exact Bool.false_ne_true),
    if_neg hquote, hc]
  rfl

theorem hexValue?_hexDigit : ∀ n < 16, hexValue? (hexDigit n) = some n := by
  decide

theorem step_unit {ts : List Token} {seen : List Char} {digits value n : Nat} {d : Char}
    (hd : hexValue? d = some n) (hlt : digits < 3) :
    Scanned.step ⟨ts, .unit seen none digits value⟩ d
      = some ⟨ts, .unit seen none (digits + 1) (16 * value + n)⟩ := by
  rw [Scanned.step, scanChar, hd]
  show (if digits < 3 then _ else _ : Option (List Token × Scan)).map _ = _
  rw [if_pos hlt]
  rfl

theorem scanUnit_of_lt (seen : List Char) {c : Char} (hlt : c.toNat < 0xD800) :
    scanUnit seen none c.toNat = some (.string (c :: seen)) := by
  have hhigh : isHigh c.toNat = false := by
    rw [isHigh, decide_eq_false (by omega)]
    rfl
  have hlow : isLow c.toNat = false := by
    rw [isLow, decide_eq_false (by omega)]
    rfl
  rw [scanUnit, hhigh, hlow, Char.ofNat_toNat]
  rfl

theorem step_lastUnit {ts : List Token} {seen : List Char} {value n : Nat} {c d : Char}
    (hd : hexValue? d = some n) (hc : 16 * value + n = c.toNat) (hlt : c.toNat < 0xD800) :
    Scanned.step ⟨ts, .unit seen none 3 value⟩ d = some ⟨ts, .string (c :: seen)⟩ := by
  rw [Scanned.step, scanChar, hd]
  show ((scanUnit seen none (16 * value + n)).map (([], ·))).map _ = _
  rw [hc, scanUnit_of_lt seen hlt]
  rfl

/-- A control character written by number is read back digit by digit. -/
theorem onwards_control {ts : List Token} {seen : List Char} {c : Char} (cs : List Char)
    (hc : c.toNat < 0x20) :
    Scanned.onwards ⟨ts, .string seen⟩
        ('\\' :: 'u' :: '0' :: '0' :: hexDigit (c.toNat / 16) :: hexDigit (c.toNat % 16) :: cs)
      = Scanned.onwards ⟨ts, .string (c :: seen)⟩ cs := by
  have hhigh : hexValue? (hexDigit (c.toNat / 16)) = some (c.toNat / 16) :=
    hexValue?_hexDigit _ (by omega)
  have hlow : hexValue? (hexDigit (c.toNat % 16)) = some (c.toNat % 16) :=
    hexValue?_hexDigit _ (by omega)
  have hzero : hexValue? '0' = some 0 := by decide
  have hvalue : 16 * (16 * (16 * (16 * 0 + 0) + 0) + c.toNat / 16) + c.toNat % 16
      = c.toNat := by omega
  calc Scanned.onwards ⟨ts, .string seen⟩ _
      = Scanned.onwards ⟨ts, .escape seen⟩ ('u' :: _) := onwards_of_step rfl
    _ = Scanned.onwards ⟨ts, .unit seen none 0 0⟩ _ := onwards_of_step rfl
    _ = Scanned.onwards ⟨ts, .unit seen none 1 _⟩ _ :=
        onwards_of_step (step_unit hzero (by omega))
    _ = Scanned.onwards ⟨ts, .unit seen none 2 _⟩ _ :=
        onwards_of_step (step_unit hzero (by omega))
    _ = Scanned.onwards ⟨ts, .unit seen none 3 _⟩ _ :=
        onwards_of_step (step_unit hhigh (by omega))
    _ = Scanned.onwards ⟨ts, .string (c :: seen)⟩ cs :=
        onwards_of_step (step_lastUnit hlow hvalue (by omega))

theorem onwards_escapeChar (ts : List Token) (seen : List Char) (c : Char) (cs : List Char) :
    Scanned.onwards ⟨ts, .string seen⟩ (escapeChar c ++ cs)
      = Scanned.onwards ⟨ts, .string (c :: seen)⟩ cs := by
  by_cases hquote : c = '"'
  · subst hquote; rfl
  by_cases hback : c = '\\'
  · subst hback; rfl
  unfold escapeChar
  rw [if_neg hquote, if_neg hback]
  repeat' split
  · next hc => subst hc; rfl
  · next hc => subst hc; rfl
  · next hc => subst hc; rfl
  · next hc => subst hc; rfl
  · next hc => subst hc; rfl
  · next hc => exact onwards_control cs hc
  · next hc =>
      refine onwards_of_step ?_
      rw [Scanned.step, scanChar, if_neg hquote, if_neg hback, if_neg hc]
      rfl

theorem onwards_escaped (ts : List Token) (cs : List Char) :
    ∀ (text seen : List Char),
      Scanned.onwards ⟨ts, .string seen⟩ (text.flatMap escapeChar ++ '"' :: cs)
        = Scanned.onwards ⟨.str (String.ofList (seen.reverse ++ text)) :: ts, .between⟩ cs := by
  intro text
  induction text with
  | nil =>
      intro seen
      rw [List.append_nil]
      exact onwards_of_step rfl
  | cons c text ih =>
      intro seen
      rw [List.flatMap_cons, List.append_assoc, onwards_escapeChar, ih, List.reverse_cons,
        List.append_assoc]
      rfl

theorem onwards_quote (ts : List Token) (s : String) (cs : List Char) :
    Scanned.onwards ⟨ts, .between⟩ ((quote s).toList ++ cs)
      = Scanned.onwards ⟨.str s :: ts, .between⟩ cs := by
  have htext : (quote s).toList ++ cs
      = '"' :: (s.toList.flatMap escapeChar ++ '"' :: cs) := by
    simp [quote]
  have hopen : Scanned.step ⟨ts, .between⟩ '"' = some ⟨ts, .string []⟩ := rfl
  rw [htext, onwards_of_step hopen, onwards_escaped, List.reverse_nil, List.nil_append,
    String.ofList_toList]

theorem not_endsWord {c : Char} (h : endsWord c = false) :
    isBlank c = false ∧ c ≠ '"' ∧ punctuation? c = none := by
  rw [endsWord, Bool.or_eq_false_iff, Bool.or_eq_false_iff] at h
  obtain ⟨⟨hblank, hquote⟩, hmark⟩ := h
  exact ⟨hblank, by simpa using hquote, by simpa using hmark⟩

theorem step_openWord {ts : List Token} {c : Char} (hc : endsWord c = false) :
    Scanned.step ⟨ts, .between⟩ c = some ⟨ts, .word [c]⟩ := by
  obtain ⟨hblank, hquote, hmark⟩ := not_endsWord hc
  rw [Scanned.step, scanChar, scanBetween, hblank, if_neg Bool.false_ne_true, if_neg hquote,
    hmark]
  rfl

theorem onwards_wordChars {ts : List Token} {cs : List Char} :
    ∀ {w seen : List Char}, (∀ d ∈ w, endsWord d = false) →
      Scanned.onwards ⟨ts, .word seen⟩ (w ++ cs)
        = Scanned.onwards ⟨ts, .word (w.reverse ++ seen)⟩ cs := by
  intro w
  induction w with
  | nil => intro seen _; rfl
  | cons d w ih =>
      intro seen hw
      obtain ⟨hd, hw⟩ := List.forall_mem_cons.mp hw
      have hstep : Scanned.step ⟨ts, .word seen⟩ d = some ⟨ts, .word (d :: seen)⟩ := by
        rw [Scanned.step, scanChar, hd, if_neg Bool.false_ne_true]
        rfl
      rw [List.cons_append, onwards_of_step hstep, ih hw, List.reverse_cons, List.append_assoc]
      rfl

/-- A word is complete at the end of the text and at whatever ends it, which is
then scanned as if it stood between tokens. -/
theorem onwards_endWord {ts : List Token} {seen cs : List Char} {t : Token}
    (hword : word? seen.reverse = some t) (hcs : Bounded cs) :
    Scanned.onwards ⟨ts, .word seen⟩ cs = Scanned.onwards ⟨t :: ts, .between⟩ cs := by
  cases cs with
  | nil =>
      show (word? seen.reverse).map _ = _
      rw [hword]
      rfl
  | cons c cs =>
      have hc : endsWord c = true := hcs c rfl
      rw [onwards_cons, onwards_cons, Scanned.step, Scanned.step, scanChar, scanChar, hc,
        if_pos rfl, hword]
      simp

theorem onwards_word {ts : List Token} {c : Char} {w cs : List Char} {t : Token}
    (hword : word? (c :: w) = some t) (hw : ∀ d ∈ c :: w, endsWord d = false)
    (hcs : Bounded cs) :
    Scanned.onwards ⟨ts, .between⟩ (c :: w ++ cs)
      = Scanned.onwards ⟨t :: ts, .between⟩ cs := by
  obtain ⟨hc, hw⟩ := List.forall_mem_cons.mp hw
  rw [List.cons_append, onwards_of_step (step_openWord hc), onwards_wordChars hw]
  refine onwards_endWord ?_ hcs
  rw [List.reverse_append, List.reverse_reverse]
  exact hword

/-- The scanner finds the tokens that a text spells. -/
theorem onwards_of_spells {cs : List Char} {ts : List Token} (h : Spells cs ts) :
    ∀ before : List Token,
      Scanned.onwards ⟨before, .between⟩ cs = some (before.reverse ++ ts) := by
  induction h with
  | nil =>
      intro before
      rw [List.append_nil]
      rfl
  | blank hc _ ih => intro before; rw [onwards_blank hc, ih]
  | mark hc _ ih => intro before; rw [onwards_mark hc, ih, List.reverse_cons, List.append_assoc]; rfl
  | str s _ ih => intro before; rw [onwards_quote, ih, List.reverse_cons, List.append_assoc]; rfl
  | word hword hw hcs _ ih =>
      intro before
      rw [onwards_word hword hw hcs, ih, List.reverse_cons, List.append_assoc]
      rfl

theorem tokens?_of_spells {text : String} {ts : List Token} (h : Spells text.toList ts) :
    tokens? text = some ts :=
  onwards_of_spells h []

mutual

/-- The tokens of a value, without regard to how they are spaced. -/
def tokens : Json → List Token
  | .null => [.null]
  | .bool b => [.bool b]
  | .num n => [.num n]
  | .str s => [.str s]
  | .arr vs => .openArr :: (itemTokens vs ++ [.closeArr])
  | .obj ms => .openObj :: (memberTokens ms ++ [.closeObj])

/-- The tokens of items, with a comma between any two. -/
def itemTokens : List Json → List Token
  | [] => []
  | [v] => v.tokens
  | v :: vs => v.tokens ++ .comma :: itemTokens vs

/-- The tokens of members, with a comma between any two. -/
def memberTokens : List (String × Json) → List Token
  | [] => []
  | [(k, v)] => .str k :: .colon :: v.tokens
  | (k, v) :: ms => .str k :: .colon :: (v.tokens ++ .comma :: memberTokens ms)

end

/-- A value without numbers in which no object has a key twice. -/
inductive Plain : Json → Prop
  | null : Plain .null
  | bool (b : Bool) : Plain (.bool b)
  | str (s : String) : Plain (.str s)
  | arr {vs : List Json} (h : ∀ v ∈ vs, Plain v) : Plain (.arr vs)
  | obj {ms : List (String × Json)} (hkeys : Table.Distinct ms)
      (h : ∀ m ∈ ms, Plain m.2) : Plain (.obj ms)

/-- The text spells the tokens in front of anything that ends a word. -/
def SpelledBy (us : List Token) (text : String) : Prop :=
  ∀ {cs : List Char} {ts : List Token}, Bounded cs → Spells cs ts →
    Spells (text.toList ++ cs) (us ++ ts)

theorem bounded_cons {c : Char} {cs : List Char} (h : endsWord c = true) :
    Bounded (c :: cs) := by
  intro d hd
  cases hd
  exact h

theorem spelledBy_null : SpelledBy [.null] "null" := by
  intro cs ts hcs h
  have hword : ∀ d ∈ 'n' :: ['u', 'l', 'l'], endsWord d = false := by
    simp [endsWord, isBlank, punctuation?]
  exact .word rfl hword hcs h

theorem spelledBy_bool (b : Bool) : SpelledBy [.bool b] (boolText b) := by
  intro cs ts hcs h
  cases b with
  | false =>
      have hword : ∀ d ∈ 'f' :: ['a', 'l', 's', 'e'], endsWord d = false := by
        simp [endsWord, isBlank, punctuation?]
      exact .word rfl hword hcs h
  | true =>
      have hword : ∀ d ∈ 't' :: ['r', 'u', 'e'], endsWord d = false := by
        simp [endsWord, isBlank, punctuation?]
      exact .word rfl hword hcs h

theorem spelledBy_quote (s : String) : SpelledBy [.str s] (quote s) :=
  fun _ h => .str s h

theorem spelledBy_compactItems (vs : List Json)
    (hvs : ∀ v ∈ vs, SpelledBy v.tokens v.compact) :
    SpelledBy (itemTokens vs) (compactItems vs) := by
  induction vs with
  | nil => exact fun _ h => h
  | cons v vs ih =>
      obtain ⟨hv, hvs⟩ := List.forall_mem_cons.mp hvs
      cases vs with
      | nil => exact hv
      | cons w vs =>
          intro cs ts hcs h
          simp only [compactItems, itemTokens, String.toList_append, List.append_assoc,
            List.cons_append]
          exact hv (bounded_cons rfl) (.mark rfl (ih hvs hcs h))

theorem spelledBy_compactMembers (ms : List (String × Json))
    (hms : ∀ m ∈ ms, SpelledBy m.2.tokens m.2.compact) :
    SpelledBy (memberTokens ms) (compactMembers ms) := by
  induction ms with
  | nil => exact fun _ h => h
  | cons m ms ih =>
      obtain ⟨k, v⟩ := m
      obtain ⟨hv, hms⟩ := List.forall_mem_cons.mp hms
      intro cs ts hcs h
      cases ms with
      | nil =>
          simp only [compactMembers, memberTokens, String.toList_append, List.append_assoc,
            List.cons_append]
          exact .str k (.mark rfl (hv hcs h))
      | cons m ms =>
          simp only [compactMembers, memberTokens, String.toList_append, List.append_assoc,
            List.cons_append]
          exact .str k (.mark rfl (hv (bounded_cons rfl) (.mark rfl (ih hms hcs h))))

theorem spelledBy_compact {v : Json} (hv : v.Plain) : SpelledBy v.tokens v.compact := by
  induction hv with
  | null => exact spelledBy_null
  | bool b => exact spelledBy_bool b
  | str s => exact spelledBy_quote s
  | arr _ ih =>
      intro cs ts hcs h
      simp only [compact, tokens, String.toList_append, List.append_assoc, List.cons_append]
      exact .mark rfl (spelledBy_compactItems _ ih (bounded_cons rfl) (.mark rfl h))
  | obj _ _ ih =>
      intro cs ts hcs h
      simp only [compact, tokens, String.toList_append, List.append_assoc, List.cons_append]
      exact .mark rfl (spelledBy_compactMembers _ ih (bounded_cons rfl) (.mark rfl h))

/-! ## The indented layout

The same walk with a level, and with a line break in front of each item and of
each closing bracket. -/

theorem toList_newline (level : Nat) :
    (newline level).toList = '\n' :: List.replicate (2 * level) ' ' :=
  String.toList_ofList

theorem bounded_newline (level : Nat) (cs : List Char) :
    Bounded ((newline level).toList ++ cs) := by
  rw [toList_newline]
  exact bounded_cons rfl

theorem spells_newline (level : Nat) {cs : List Char} {ts : List Token} (h : Spells cs ts) :
    Spells ((newline level).toList ++ cs) ts := by
  have hspaces : ∀ n, Spells (List.replicate n ' ' ++ cs) ts := by
    intro n
    induction n with
    | zero => exact h
    | succ n ih => rw [List.replicate_succ]; exact .blank rfl ih
  rw [toList_newline]
  exact .blank rfl (hspaces _)

theorem spelledBy_prettyItems (level : Nat) (vs : List Json)
    (hvs : ∀ v ∈ vs, SpelledBy v.tokens (prettyAt level v)) :
    SpelledBy (itemTokens vs) (prettyItems level vs) := by
  induction vs with
  | nil => exact fun _ h => h
  | cons v vs ih =>
      obtain ⟨hv, hvs⟩ := List.forall_mem_cons.mp hvs
      intro cs ts hcs h
      cases vs with
      | nil =>
          simp only [prettyItems, itemTokens, String.toList_append, List.append_assoc]
          exact spells_newline level (hv hcs h)
      | cons w vs =>
          simp only [prettyItems, itemTokens, String.toList_append, List.append_assoc,
            List.cons_append]
          refine spells_newline level (hv (bounded_cons rfl) (.mark rfl ?_))
          exact ih hvs hcs h

theorem spelledBy_prettyMembers (level : Nat) (ms : List (String × Json))
    (hms : ∀ m ∈ ms, SpelledBy m.2.tokens (prettyAt level m.2)) :
    SpelledBy (memberTokens ms) (prettyMembers level ms) := by
  induction ms with
  | nil => exact fun _ h => h
  | cons m ms ih =>
      obtain ⟨k, v⟩ := m
      obtain ⟨hv, hms⟩ := List.forall_mem_cons.mp hms
      intro cs ts hcs h
      cases ms with
      | nil =>
          simp only [prettyMembers, memberTokens, String.toList_append, List.append_assoc,
            List.cons_append]
          exact spells_newline level (.str k (.mark rfl (.blank rfl (hv hcs h))))
      | cons m ms =>
          simp only [prettyMembers, memberTokens, String.toList_append, List.append_assoc,
            List.cons_append]
          refine spells_newline level (.str k (.mark rfl (.blank rfl ?_)))
          exact hv (bounded_cons rfl) (.mark rfl (ih hms hcs h))

theorem spelledBy_prettyAt {v : Json} (hv : v.Plain) :
    ∀ level, SpelledBy v.tokens (prettyAt level v) := by
  induction hv with
  | null => intro level; rw [prettyAt]; exact spelledBy_null
  | bool b => intro level; rw [prettyAt]; exact spelledBy_bool b
  | str s => intro level; rw [prettyAt]; exact spelledBy_quote s
  | @arr vs _ ih =>
      intro level cs ts hcs h
      cases vs with
      | nil => rw [prettyAt]; exact .mark rfl (.mark rfl h)
      | cons v vs =>
          have hitems : ∀ w ∈ v :: vs, SpelledBy w.tokens (prettyAt (level + 1) w) :=
            fun w hw => ih w hw (level + 1)
          simp only [prettyAt, tokens, String.toList_append, List.append_assoc,
            List.cons_append]
          refine .mark rfl (spelledBy_prettyItems _ _ hitems (bounded_newline _ _) ?_)
          exact spells_newline level (.mark rfl h)
  | @obj ms _ _ ih =>
      intro level cs ts hcs h
      cases ms with
      | nil => rw [prettyAt]; exact .mark rfl (.mark rfl h)
      | cons m ms =>
          have hmembers : ∀ l ∈ m :: ms, SpelledBy l.2.tokens (prettyAt (level + 1) l.2) :=
            fun l hl => ih l hl (level + 1)
          simp only [prettyAt, tokens, String.toList_append, List.append_assoc,
            List.cons_append]
          refine .mark rfl (spelledBy_prettyMembers _ _ hmembers (bounded_newline _ _) ?_)
          exact spells_newline level (.mark rfl h)

theorem tokens?_of_spelledBy {text : String} {ts : List Token} (h : SpelledBy ts text) :
    tokens? text = some ts := by
  have hnil : Bounded [] := fun c hc => by cases hc
  have hspells := h hnil .nil
  rw [List.append_nil, List.append_nil] at hspells
  exact tokens?_of_spells hspells

theorem tokens?_compact {v : Json} (hv : v.Plain) : tokens? v.compact = some v.tokens :=
  tokens?_of_spelledBy (spelledBy_compact hv)

theorem tokens?_pretty {v : Json} (hv : v.Plain) : tokens? v.pretty = some v.tokens :=
  tokens?_of_spelledBy (spelledBy_prettyAt hv 0)

end TreeIR.Json
