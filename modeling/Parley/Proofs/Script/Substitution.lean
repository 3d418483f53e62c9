import Parley.Proofs.Text.Cut
import Parley.Script.Replacement

/-!
# Replacement as substitution

A text is a sequence of characters and tokens (`pieces_spelled`, `keys_textPieces`), and what
one expects of a replacement is that every registered token makes room for its value and that
nothing else changes: `substitute`.

The tokens are exchanged key by key in the whole text, though, so a token may also be found
where there was none: in an inserted value, or across the end of one, or inside another token
whose key holds an opening brace.  `applyReplacements_eq_substitute` says that nothing else can
go wrong.

## Strategy

Every text on the way is the original one with some of its tokens filled in
(`filled (known values done)`), and exchanging the tokens of one more key fills in exactly
those of that key (`exchange_filled`).  For this an occurrence of a token in a filled text is
tracked down to its opening brace: no value holds one (`TokenFree.value`), a plain one has no
closing brace after it (`Cut.unclosed`), and one inside a token would make the key of that token
end in another token (`TokenFree.key`).
-/

namespace Parley.Script

open Parley.Text

/-! ## Pieces of a text -/

/-- A part of a text. -/
inductive Piece where
  | plain (text : List Char)
  | token (key : String)
  deriving DecidableEq, Repr

/-- The parts of a text; `inside` holds the characters read since an opening brace, last one
first.  An opening brace without a closing one makes what is left of the text plain. -/
def piecesFrom : (inside : Option (List Char)) → List Char → List Piece
  | none, [] => []
  | some key, [] => [.plain ('\x7b' :: key.reverse)]
  | none, c :: rest =>
    if c = '\x7b' then piecesFrom (some []) rest else .plain [c] :: piecesFrom none rest
  | some key, c :: rest =>
    if c = '\x7d' then .token (String.ofList key.reverse) :: piecesFrom none rest
    else piecesFrom (some (c :: key)) rest

/-- The parts of a text, from left to right. -/
def textPieces (text : List Char) : List Piece :=
  piecesFrom none text

def Piece.key? : Piece → Option String
  | .plain _ => none
  | .token key => some key

/-- A part of a text after the tokens of some keys were filled in. -/
def Piece.fill (value? : String → Option (List Char)) : Piece → List Char
  | .plain text => text
  | .token key => (value? key).getD (Script.token key)

/-- Parts of a text, put together with the tokens of some keys filled in. -/
def filled (value? : String → Option (List Char)) (pieces : List Piece) : List Char :=
  pieces.flatMap (Piece.fill value?)

/-- The text with every registered token replaced, all of them at once. -/
def substitute (values : Table String String) (text : List Char) : List Char :=
  filled (fun key => (values.get? key).map String.toList) (textPieces text)

section

variable {value? : String → Option (List Char)} {pieces : List Piece}

@[simp] theorem filled_nil : filled value? [] = [] := rfl

@[simp] theorem filled_plain (text : List Char) :
    filled value? (.plain text :: pieces) = text ++ filled value? pieces := rfl

@[simp] theorem filled_token (key : String) :
    filled value? (.token key :: pieces) =
      (value? key).getD (Script.token key) ++ filled value? pieces := rfl

/-- Only the values of the tokens that occur count. -/
theorem filled_congr {other? : String → Option (List Char)}
    (h : ∀ key, .token key ∈ pieces → value? key = other? key) :
    filled value? pieces = filled other? pieces := by
  induction pieces with
  | nil => rfl
  | cons piece pieces ih =>
      have hrest := ih fun key hkey => h key (List.mem_cons_of_mem _ hkey)
      cases piece with
      | plain text => rw [filled_plain, filled_plain, hrest]
      | token key => rw [filled_token, filled_token, hrest, h key List.mem_cons_self]

end

/-- The characters read so far, if any, and the opening brace before them. -/
def opened : Option (List Char) → List Char
  | none => []
  | some key => '\x7b' :: key.reverse

theorem filled_piecesFrom (inside : Option (List Char)) (text : List Char) :
    filled (fun _ => none) (piecesFrom inside text) = opened inside ++ text := by
  induction text generalizing inside with
  | nil => cases inside <;> simp [piecesFrom, opened]
  | cons c rest ih =>
      cases inside with
      | none =>
          by_cases hc : c = '\x7b'
          · simp [piecesFrom, hc, ih, opened]
          · simp [piecesFrom, hc, ih, opened]
      | some key =>
          by_cases hc : c = '\x7d'
          · simp [piecesFrom, hc, ih, opened, token]
          · simp [piecesFrom, hc, ih, opened]

/-- Nothing of a text is lost in its parts. -/
theorem pieces_spelled (text : List Char) : filled (fun _ => none) (textPieces text) = text :=
  filled_piecesFrom none text

theorem keys_piecesFrom (inside : Option (List Char)) (text : List Char) :
    (piecesFrom inside text).filterMap Piece.key? = tokenKeys inside text := by
  induction text generalizing inside with
  | nil => cases inside <;> rfl
  | cons c rest ih =>
      cases inside with
      | none =>
          by_cases hc : c = '\x7b'
          · simp [piecesFrom, tokenKeys, hc, ih]
          · rw [piecesFrom, tokenKeys, if_neg hc, if_neg hc, ← ih]
            rfl
      | some key =>
          by_cases hc : c = '\x7d'
          · simp [piecesFrom, tokenKeys, hc, ih, Piece.key?]
          · simp [piecesFrom, tokenKeys, hc, ih]

/-- The tokens among the parts of a text are those that are looked for in it. -/
theorem keys_textPieces (text : List Char) :
    (textPieces text).filterMap Piece.key? = replacementKeys text :=
  keys_piecesFrom none text

theorem token_mem_textPieces {text : List Char} {key : String} :
    .token key ∈ textPieces text ↔ key ∈ replacementKeys text := by
  rw [← keys_textPieces, List.mem_filterMap]
  constructor
  · intro h
    exact ⟨.token key, h, rfl⟩
  · rintro ⟨piece, hpiece, hkey⟩
    cases piece with
    | plain text => cases hkey
    | token other =>
        obtain rfl : other = key := Option.some.inj hkey
        exact hpiece

/-- Where braces may stand in the parts of a text: outside tokens an opening brace has no
closing one after it, and keys reach only as far as the first closing brace. -/
inductive Cut : List Piece → Prop
  | nil : Cut []
  | plain {c : Char} {rest : List Piece} (hc : c ≠ '\x7b') (h : Cut rest) :
      Cut (.plain [c] :: rest)
  | token {key : String} {rest : List Piece} (hkey : '\x7d' ∉ key.toList) (h : Cut rest) :
      Cut (.token key :: rest)
  | unclosed {text : List Char} (h : '\x7d' ∉ text) : Cut [.plain text]

theorem cut_piecesFrom {inside : Option (List Char)} (h : ∀ key ∈ inside, '\x7d' ∉ key)
    (text : List Char) : Cut (piecesFrom inside text) := by
  induction text generalizing inside with
  | nil =>
      cases inside with
      | none => exact .nil
      | some key => exact .unclosed (by simpa using h key rfl)
  | cons c rest ih =>
      cases inside with
      | none =>
          by_cases hc : c = '\x7b'
          · rw [piecesFrom, if_pos hc]
            exact ih (by simp)
          · rw [piecesFrom, if_neg hc]
            exact .plain hc (ih (by simp))
      | some key =>
          have hkey : '\x7d' ∉ key := h key rfl
          by_cases hc : c = '\x7d'
          · rw [piecesFrom, if_pos hc]
            exact .token (by simpa using hkey) (ih (by simp))
          · rw [piecesFrom, if_neg hc]
            exact ih (by simp [hkey, Ne.symm hc])

theorem cut_textPieces (text : List Char) : Cut (textPieces text) :=
  cut_piecesFrom (by simp) text

theorem Cut.closed {pieces : List Piece} {key : String} (h : Cut pieces)
    (hkey : .token key ∈ pieces) : '\x7d' ∉ key.toList := by
  induction h with
  | nil => cases hkey
  | plain hc h ih => exact ih (by simpa using hkey)
  | unclosed htext => simp at hkey
  | token hother h ih =>
      rcases List.mem_cons.mp hkey with heq | hrest
      · obtain rfl := Piece.token.inj heq
        exact hother
      · exact ih hrest

/-! ## Exchanging one pattern -/

theorem exchange_skip (pattern value : List Char) (skip : Nat) (text : List Char) :
    exchange pattern value skip text = exchange pattern value 0 (text.drop skip) := by
  induction text generalizing skip with
  | nil => cases skip <;> simp [exchange]
  | cons c rest ih =>
      cases skip with
      | zero => rfl
      | succ skip => rw [exchange, ih, List.drop_succ_cons]

theorem exchange_self_append {pattern : List Char} (hne : pattern ≠ []) (value rest : List Char) :
    exchange pattern value 0 (pattern ++ rest) = value ++ exchange pattern value 0 rest := by
  obtain ⟨p, ps, rfl⟩ := List.exists_cons_of_ne_nil hne
  have hstarts : (p :: ps).isPrefixOf (p :: (ps ++ rest)) = true := by
    rw [List.isPrefixOf_iff_prefix]
    exact List.prefix_append (p :: ps) rest
  rw [List.cons_append, exchange, if_pos hstarts, exchange_skip]
  simp

/-- A text in which the pattern starts nowhere stays as it is. -/
theorem exchange_append {pattern text : List Char} (value rest : List Char)
    (h : ∀ start, start ≠ [] → start <:+ text → ¬ pattern <+: start ++ rest) :
    exchange pattern value 0 (text ++ rest) = text ++ exchange pattern value 0 rest := by
  induction text with
  | nil => rfl
  | cons c text ih =>
      have hhere : ¬ pattern.isPrefixOf (c :: (text ++ rest)) = true := by
        rw [List.isPrefixOf_iff_prefix]
        exact h (c :: text) (by simp) List.suffix_rfl
      rw [List.cons_append, exchange, if_neg hhere, ih, List.cons_append]
      intro start hne hstart
      exact h start hne (hstart.trans (List.suffix_cons c text))

/-! ## Exchanging the tokens of one key -/

section

variable {key other : String} {text rest : List Char}

theorem token_eq (key : String) : token key = ('\x7b' :: key.toList) ++ '\x7d' :: [] := rfl

theorem token_ne_nil (key : String) : token key ≠ [] := by simp [token]

/-- A token needs its opening brace. -/
theorem not_starts_token_of_plain {start : List Char} (hne : start ≠ [])
    (hstart : '\x7b' ∉ start) : ¬ token key <+: start ++ rest := by
  obtain ⟨c, cs, rfl⟩ := List.exists_cons_of_ne_nil hne
  intro hstarts
  rw [token_eq, List.cons_append, List.cons_append, List.cons_prefix_cons] at hstarts
  exact hstart (hstarts.1 ▸ List.mem_cons_self)

/-- A token needs its closing brace. -/
theorem not_starts_token_of_unclosed (htext : '\x7d' ∉ text) : ¬ token key <+: text := by
  intro hstarts
  exact htext (hstarts.subset (by simp [token]))

/-- A token that reaches to the first closing brace of a text is all that stands before it. -/
theorem eq_of_starts_token (hkey : '\x7d' ∉ key.toList) {start : List Char}
    (hstart : '\x7d' ∉ start) (h : token key <+: start ++ '\x7d' :: rest) :
    start = '\x7b' :: key.toList := by
  obtain ⟨tail, htail⟩ := h
  have hopen : '\x7d' ∉ '\x7b' :: key.toList := by simp [hkey]
  have hcut := cutFirst_append_cons hopen tail
  have hsame : ('\x7b' :: key.toList) ++ '\x7d' :: tail = start ++ '\x7d' :: rest := by
    rw [← htail, token_eq, List.append_assoc, List.singleton_append]
  rw [hsame, cutFirst_append_cons hstart] at hcut
  exact (Prod.mk.inj (Option.some.inj hcut)).1

/-- Inside a token there is another one only if its key ends in one. -/
theorem exchange_token_append (hkey : '\x7d' ∉ key.toList) (hother : '\x7d' ∉ other.toList)
    (hne : other ≠ key) (hend : ¬ '\x7b' :: key.toList <:+ other.toList) (value rest : List Char) :
    exchange (token key) value 0 (token other ++ rest) =
      token other ++ exchange (token key) value 0 rest := by
  apply exchange_append
  intro start hstart hsuffix hstarts
  -- The part of the token on which another one would start reaches to its closing brace.
  obtain ⟨front, rfl, hfront⟩ : ∃ front, start = front ++ ['\x7d'] ∧
      front <:+ '\x7b' :: other.toList := by
    rw [token_eq] at hsuffix
    exact (List.suffix_concat_iff.mp hsuffix).resolve_left hstart
  have hfree : '\x7d' ∉ front := fun hmem => by simpa [hother] using hfront.subset hmem
  rw [List.append_assoc, List.singleton_append] at hstarts
  obtain rfl := eq_of_starts_token hkey hfree hstarts
  rcases List.suffix_cons_iff.mp hfront with heq | hinner
  · exact hne (String.toList_inj.mp (List.cons.inj heq).2.symm)
  · exact hend hinner

end

/-- The values of the keys with one more of them filled in. -/
def learn (value? : String → Option (List Char)) (key : String) (value : List Char) :
    String → Option (List Char) :=
  fun other => if other = key then some value else value? other

/-- Exchanging the tokens of a key fills in the parts with that key and leaves all others. -/
theorem exchange_filled {value? : String → Option (List Char)} {pieces : List Piece} {key : String}
    {value : List Char} (hcut : Cut pieces) (hkey : '\x7d' ∉ key.toList)
    (hplain : ∀ other text, value? other = some text → '\x7b' ∉ text)
    (hknown : ∀ text, value? key = some text → text = value)
    (hend : ∀ other, .token other ∈ pieces → ¬ '\x7b' :: key.toList <:+ other.toList) :
    exchange (token key) value 0 (filled value? pieces) =
      filled (learn value? key value) pieces := by
  induction hcut with
  | nil => rfl
  | @plain c rest hc h ih =>
      have hrest := ih fun other hother => hend other (List.mem_cons_of_mem _ hother)
      rw [filled_plain, filled_plain, exchange_append, hrest]
      intro start hne hstart
      exact not_starts_token_of_plain hne fun hmem =>
        hc (List.mem_singleton.mp (hstart.subset hmem)).symm
  | unclosed htext =>
      rw [filled_plain, filled_plain, exchange_append]
      · rfl
      · intro start _ hstart
        apply not_starts_token_of_unclosed
        simpa using fun hmem => htext (hstart.subset hmem)
  | @token other rest hother h ih =>
      have hrest := ih fun inner hinner => hend inner (List.mem_cons_of_mem _ hinner)
      rw [filled_token, filled_token]
      cases hvalue : value? other with
      | some text =>
          -- A token that has been filled in already: its value brings no opening brace.
          have hlearn : learn value? key value other = some text := by
            by_cases hsame : other = key
            · subst hsame
              simp [learn, hknown text hvalue]
            · simp [learn, hsame, hvalue]
          rw [hlearn, Option.getD_some, exchange_append, hrest]
          intro start hne hstart
          exact not_starts_token_of_plain hne fun hmem =>
            hplain other text hvalue (hstart.subset hmem)
      | none =>
          by_cases hsame : other = key
          · subst hsame
            rw [Option.getD_none, exchange_self_append (token_ne_nil _), hrest]
            simp [learn]
          · have hinner := hend other List.mem_cons_self
            rw [Option.getD_none, exchange_token_append hkey hother hsame hinner, hrest]
            simp [learn, hsame, hvalue]

/-! ## All keys, one after the other -/

/-- The values of the registered keys among those that were dealt with. -/
def known (values : Table String String) (done : List String) : String → Option (List Char) :=
  fun key => if key ∈ done then (values.get? key).map String.toList else none

theorem known_nil (values : Table String String) : known values [] = fun _ => none := by
  funext key
  simp [known]

theorem known_append_singleton_of_none {values : Table String String} {key : String}
    (h : values.get? key = none) (done : List String) :
    known values (done ++ [key]) = known values done := by
  funext other
  by_cases hother : other = key
  · simp [known, hother, h]
  · simp [known, hother]

theorem learn_known {values : Table String String} {key value : String}
    (h : values.get? key = some value) (done : List String) :
    learn (known values done) key value.toList = known values (done ++ [key]) := by
  funext other
  by_cases hother : other = key
  · simp [learn, known, hother, h]
  · simp [learn, known, hother]

theorem known_eq_some {values : Table String String} {done : List String} {key : String}
    {text : List Char} (h : known values done key = some text) :
    key ∈ done ∧ ∃ value, values.get? key = some value ∧ value.toList = text := by
  unfold known at h
  split at h
  · rename_i hkey
    exact ⟨hkey, Option.map_eq_some_iff.mp h⟩
  · cases h

/-- Replacements that bring about no new tokens: no registered value holds an opening brace,
and no key ends in the token of a registered one. -/
structure TokenFree (replacements : Table String String) (found : List String) : Prop where
  value : ∀ key ∈ found, ∀ value ∈ replacements.get? key, '\x7b' ∉ value.toList
  key : ∀ key ∈ found, ∀ other ∈ found, replacements.contains other = true →
    ¬ '\x7b' :: other.toList <:+ key.toList

instance (replacements : Table String String) (found : List String) :
    Decidable (TokenFree replacements found) :=
  decidable_of_iff
    ((∀ key ∈ found, ∀ value ∈ replacements.get? key, '\x7b' ∉ value.toList) ∧
      ∀ key ∈ found, ∀ other ∈ found, replacements.contains other = true →
        ¬ '\x7b' :: other.toList <:+ key.toList)
    ⟨fun h => ⟨h.1, h.2⟩, fun h => ⟨h.value, h.key⟩⟩

theorem replaceKeys_filled {values : Table String String} {pieces : List Piece}
    (hcut : Cut pieces) {done todo : List String}
    (hfound : ∀ key, .token key ∈ pieces → key ∈ done ++ todo)
    (hclosed : ∀ key ∈ todo, '\x7d' ∉ key.toList)
    (hfree : TokenFree values (done ++ todo)) :
    replaceKeys values todo (filled (known values done) pieces) =
      filled (known values (done ++ todo)) pieces := by
  induction todo generalizing done with
  | nil => rw [replaceKeys, List.append_nil]
  | cons key todo ih =>
      have hassoc : done ++ key :: todo = (done ++ [key]) ++ todo := by simp
      have hrest : replaceKeys values todo (filled (known values (done ++ [key])) pieces) =
          filled (known values (done ++ key :: todo)) pieces := by
        rw [hassoc] at hfound hfree ⊢
        exact ih hfound (fun other hother => hclosed other (List.mem_cons_of_mem _ hother)) hfree
      cases hvalue : values.get? key with
      | none => simpa only [replaceKeys, hvalue, known_append_singleton_of_none hvalue] using hrest
      | some value =>
          have hstep : exchange (token key) value.toList 0 (filled (known values done) pieces) =
              filled (known values (done ++ [key])) pieces := by
            rw [← learn_known hvalue]
            apply exchange_filled hcut (hclosed key List.mem_cons_self)
            · intro other text hother
              obtain ⟨hdone, value, hget, rfl⟩ := known_eq_some hother
              exact hfree.value other (List.mem_append_left _ hdone) value hget
            · intro text htext
              obtain ⟨-, value', hget, rfl⟩ := known_eq_some htext
              rw [hvalue] at hget
              rw [Option.some.inj hget]
            · intro other hother
              apply hfree.key other (hfound other hother) key (by simp)
              simp [Table.contains, hvalue]
          simp only [replaceKeys, hvalue, hstep, hrest]

/-- Replacements that bring about no new tokens put every registered token of a text in place
at once; the values are not looked through again, and nothing else changes. -/
theorem applyReplacements_eq_substitute {replacements : Table String String} {text : String}
    (h : TokenFree replacements (replacementKeys text.toList)) :
    applyReplacements replacements text = String.ofList (substitute replacements text.toList) := by
  have hcut : Cut (textPieces text.toList) := cut_textPieces text.toList
  have hfound : ∀ key, .token key ∈ textPieces text.toList → key ∈ replacementKeys text.toList :=
    fun key => token_mem_textPieces.mp
  have hclosed : ∀ key ∈ replacementKeys text.toList, '\x7d' ∉ key.toList :=
    fun key hkey => hcut.closed (token_mem_textPieces.mpr hkey)
  have hall : filled (known replacements (replacementKeys text.toList)) (textPieces text.toList) =
      substitute replacements text.toList := by
    apply filled_congr
    intro key hkey
    rw [known, if_pos (hfound key hkey)]
  unfold applyReplacements
  congr 1
  calc replaceKeys replacements (replacementKeys text.toList) text.toList
      = replaceKeys replacements (replacementKeys text.toList)
          (filled (known replacements []) (textPieces text.toList)) := by
        rw [known_nil, pieces_spelled]
    _ = filled (known replacements (replacementKeys text.toList)) (textPieces text.toList) :=
        replaceKeys_filled hcut hfound hclosed h
    _ = substitute replacements text.toList := hall

/-- A token that occurs twice, one that is not registered and one that is not closed. -/
theorem applyReplacements_eq_substitute_greeting :
    TokenFree (.ofList [("player", "Ann")])
        (replacementKeys "Hi \x7bplayer\x7d! \x7bplayer\x7d, meet \x7bnpc\x7d. \x7bplayer".toList) ∧
      applyReplacements (.ofList [("player", "Ann")])
          "Hi \x7bplayer\x7d! \x7bplayer\x7d, meet \x7bnpc\x7d. \x7bplayer" =
        "Hi Ann! Ann, meet \x7bnpc\x7d. \x7bplayer" := by
  have hfree : TokenFree (.ofList [("player", "Ann")])
      (replacementKeys
        "Hi \x7bplayer\x7d! \x7bplayer\x7d, meet \x7bnpc\x7d. \x7bplayer".toList) := by
    decide +kernel
  exact ⟨hfree, (applyReplacements_eq_substitute hfree).trans (by decide +kernel)⟩

/-- A token whose key is not registered is changed all the same if its key ends in a registered
one, and an inserted value is looked through again. -/
theorem unknown_token_replaced :
    replacementKeys "\x7ba\x7bb\x7d \x7bb\x7d".toList = ["a\x7bb", "b"] ∧
      applyReplacements (.ofList [("b", "x")]) "\x7ba\x7bb\x7d \x7bb\x7d" = "\x7bax x" ∧
      substitute (.ofList [("b", "x")]) "\x7ba\x7bb\x7d \x7bb\x7d".toList =
        "\x7ba\x7bb\x7d x".toList ∧
      applyReplacements (.ofList [("a", "\x7bb\x7d"), ("b", "x")]) "\x7ba\x7d\x7bb\x7d" = "xx" ∧
      substitute (.ofList [("a", "\x7bb\x7d"), ("b", "x")]) "\x7ba\x7d\x7bb\x7d".toList =
        "\x7bb\x7dx".toList := by
  decide +kernel

end Parley.Script
