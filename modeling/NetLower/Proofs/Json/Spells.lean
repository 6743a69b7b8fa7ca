/-
What a laid out document spells.  The reader cuts a text into tokens and puts the tokens
together again; both are followed piece by piece here, so that a document spells the value
that its members spell, whatever stands around it.
-/
import Mathlib.Data.List.Forall2
import NetLower.Json.Basic
import NetLower.Json.Document

namespace NetLower

namespace JsonToken

variable {cs ds : List Char} {c : Char} {tokens tokens' : List JsonToken} {token : JsonToken}

/-! ## Pieces of text -/

/-- The scan when a word that is being read has come to its end. -/
def Scan.settle (s : Scan) : Option Scan :=
  match s.mode with
  | .word chars => (ofWord? chars.reverse).map fun token => ⟨token :: s.tokens, .between⟩
  | _ => some s

/-- What is no part of a word ends it. -/
theorem scanChar_settle (s : Scan) (hc : isWordChar c = false) : scanChar s c = s.settle.bind (scanChar · c) := by
  obtain ⟨tokens, mode⟩ := s
  cases mode with
  | word chars =>
    simp only [scanChar, hc, Scan.settle]
    cases ofWord? chars.reverse <;> rfl
  | between | quoted | escape | unit => rfl

theorem finish_settle (s : Scan) : s.finish = s.settle.bind Scan.finish := by
  obtain ⟨tokens, mode⟩ := s
  cases mode with
  | word chars =>
    simp only [Scan.finish, Scan.settle]
    cases ofWord? chars.reverse <;> rfl
  | between | quoted | escape | unit => rfl

/-- The text is these tokens, and whatever comes behind it starts anew. -/
def Closed (cs : List Char) (tokens : List JsonToken) : Prop :=
  ∀ before, cs.foldlM scanChar ⟨before, .between⟩ = some ⟨tokens.reverse ++ before, .between⟩

/-- The text is these tokens, unless a word that it ends in goes on. -/
def Scans (cs : List Char) (tokens : List JsonToken) : Prop :=
  ∀ before, ∃ s, cs.foldlM scanChar ⟨before, .between⟩ = some s ∧
    s.settle = some ⟨tokens.reverse ++ before, .between⟩

theorem Closed.scans (h : Closed cs tokens) : Scans cs tokens := fun before => ⟨_, h before, rfl⟩

theorem Closed.append (h : Closed cs tokens) (h' : Closed ds tokens') : Closed (cs ++ ds) (tokens ++ tokens') := by
  intro before
  rw [List.foldlM_append, h before, List.reverse_append, List.append_assoc]
  exact h' _

theorem Closed.append_scans (h : Closed cs tokens) (h' : Scans ds tokens') :
    Scans (cs ++ ds) (tokens ++ tokens') := by
  intro before
  rw [List.foldlM_append, h before, List.reverse_append, List.append_assoc]
  exact h' _

/-- A word ends where a piece begins that is no word. -/
theorem Scans.append_closed (h : Scans cs tokens) (hc : isWordChar c = false) (h' : Closed (c :: ds) tokens') :
    Closed (cs ++ c :: ds) (tokens ++ tokens') := by
  intro before
  obtain ⟨s, hs, hsettle⟩ := h before
  have hrest := h' (tokens.reverse ++ before)
  rw [List.foldlM_cons] at hrest
  rw [List.foldlM_append, hs, List.reverse_append, List.append_assoc]
  change (c :: ds).foldlM scanChar s = _
  rw [List.foldlM_cons, scanChar_settle s hc, hsettle]
  exact hrest

theorem closed_blanks (h : ∀ c ∈ cs, isBlank c = true) : Closed cs [] := by
  intro before
  induction cs with
  | nil => rfl
  | cons c cs ih =>
    have hc : scanChar ⟨before, .between⟩ c = some ⟨before, .between⟩ := if_pos (h c (by simp))
    rw [List.foldlM_cons, hc]
    exact ih fun d hd => h d (by simp [hd])

theorem closed_blank (hc : isBlank c = true) : Closed [c] [] :=
  closed_blanks fun d hd => by rw [List.mem_singleton.1 hd]; exact hc

theorem closed_mark (h : ofMark? c = some token) : Closed [c] [token] := by
  intro before
  have hc : scanChar ⟨before, .between⟩ c = some ⟨token :: before, .between⟩ := by
    unfold ofMark? at h
    split at h <;> cases h <;> rfl
  rw [List.foldlM_cons, hc]
  rfl

theorem foldlM_word (hne : cs ≠ []) (hcs : ∀ c ∈ cs, isWordChar c = true) (before : List JsonToken) :
    cs.foldlM scanChar ⟨before, .between⟩ = some ⟨before, .word cs.reverse⟩ := by
  have more : ∀ {cs : List Char} (read : List Char), (∀ c ∈ cs, isWordChar c = true) →
      cs.foldlM scanChar ⟨before, .word read⟩ = some ⟨before, .word (cs.reverse ++ read)⟩ := by
    intro cs
    induction cs with
    | nil => exact fun _ _ => rfl
    | cons c cs ih =>
      intro read hcs
      have hc : scanChar ⟨before, .word read⟩ c = some ⟨before, .word (c :: read)⟩ := if_pos (hcs c (by simp))
      rw [List.foldlM_cons, hc, List.reverse_cons, List.append_assoc]
      exact ih (c :: read) fun d hd => hcs d (by simp [hd])
  cases cs with
  | nil => exact absurd rfl hne
  | cons c cs =>
    have hword := hcs c (by simp)
    have hblank : isBlank c = false := by
      by_contra hno
      simp only [isBlank, Bool.not_eq_false, Bool.or_eq_true, beq_iff_eq] at hno
      rcases hno with ((rfl | rfl) | rfl) | rfl <;> cases hword
    have hquote : c ≠ '"' := by
      intro hc
      rw [hc] at hword
      cases hword
    have hc : scanChar ⟨before, .between⟩ c = some ⟨before, .word [c]⟩ := by
      simp [scanChar, scanBetween, hblank, hquote, hword]
    rw [List.foldlM_cons, hc, List.reverse_cons]
    exact more [c] fun d hd => hcs d (by simp [hd])

/-- A bare word or numeral. -/
theorem scans_word (hne : cs ≠ []) (hcs : ∀ c ∈ cs, isWordChar c = true) (h : ofWord? cs = some token) :
    Scans cs [token] := fun before => ⟨_, foldlM_word hne hcs before, by simp [Scan.settle, h]⟩

/-- A text that is one word. -/
theorem ofText?_word {text : String} (hne : text.toList ≠ []) (hcs : ∀ c ∈ text.toList, isWordChar c = true) :
    ofText? text = (ofWord? text.toList).map fun token => [token] := by
  rw [ofText?, foldlM_word hne hcs, Option.bind_some]
  simp only [Scan.finish, List.reverse_reverse]
  rfl

/-! ## Quoted text -/

/-- The digits of a control character. -/
theorem unit_digits : ∀ n < 0x20,
    List.replicate (4 - (Nat.toDigits 16 n).length) '0' ++ Nat.toDigits 16 n =
        ['0', '0', (n / 16).digitChar, (n % 16).digitChar] ∧
      hexValue? (n / 16).digitChar = some (n / 16) ∧ hexValue? (n % 16).digitChar = some (n % 16) := by
  decide

/-- A control character is one unit. -/
theorem pushUnit_control (q : Quoted) (hc : c.toNat < 0x20) : q.pushUnit c.toNat = q.push c := by
  rw [Quoted.pushUnit, if_neg (by omega), if_neg (by omega), Char.ofNat_toNat]

/-- A character inside quotes, escaped where it has to be. -/
theorem scan_escaped (before : List JsonToken) (q : Quoted) (c : Char) :
    ((Document.escape? c).getD (String.singleton c)).toList.foldlM scanChar ⟨before, .quoted q⟩ =
      some ⟨before, .quoted (q.push c)⟩ := by
  unfold Document.escape?
  split
  case h_8 hquote hback _ _ _ _ _ =>
    split
    next hlow =>
      obtain ⟨hdigits, hhigh, hrest⟩ := unit_digits c.toNat hlow
      have hvalue : 16 * (16 * (16 * (16 * 0 + 0) + 0) + c.toNat / 16) + c.toNat % 16 = c.toNat := by omega
      have hzero : hexValue? '0' = some 0 := rfl
      have htext : ("\\u" ++ String.ofList ['0', '0', (c.toNat / 16).digitChar, (c.toNat % 16).digitChar]).toList =
          ['\\', 'u', '0', '0', (c.toNat / 16).digitChar, (c.toNat % 16).digitChar] := by
        simp only [String.toList_append, String.toList_ofList]
        rfl
      rw [Option.getD_some, hdigits, htext]
      have hback : scanChar ⟨before, .quoted q⟩ '\\' = some ⟨before, .escape q⟩ := rfl
      have hunit : scanChar ⟨before, .escape q⟩ 'u' = some ⟨before, .unit q 0 4⟩ := rfl
      have digit {value missing digit : Nat} {d : Char} (hd : hexValue? d = some digit) (hm : ¬ missing ≤ 1) :
          scanChar ⟨before, .unit q value missing⟩ d =
            some ⟨before, .unit q (16 * value + digit) (missing - 1)⟩ := by
        simp only [scanChar, hd, Option.bind_eq_bind, Option.bind_some, if_neg hm]
      have last {value digit : Nat} {d : Char} (hd : hexValue? d = some digit) :
          scanChar ⟨before, .unit q value 1⟩ d = some ⟨before, .quoted (q.pushUnit (16 * value + digit))⟩ := by
        simp only [scanChar, hd, Option.bind_eq_bind, Option.bind_some, if_pos (Nat.le_refl 1)]
      simp only [List.foldlM_cons, List.foldlM_nil, hback, hunit, Option.bind_eq_bind, Option.bind_some]
      rw [digit hzero (by omega), Option.bind_some, digit hzero (by omega), Option.bind_some,
        digit hhigh (by omega), Option.bind_some, last hrest, hvalue, pushUnit_control q hlow]
      rfl
    next hhigh =>
      have hc : scanChar ⟨before, .quoted q⟩ c = some ⟨before, .quoted (q.push c)⟩ := by
        simp only [scanChar]
        rw [if_neg hquote, if_neg hback, if_neg hhigh]
      simp [hc]
  all_goals rfl

/-- A quoted text is one token. -/
theorem closed_quote (s : String) : Closed (Document.quote s).toList [.text (some s)] := by
  have inside (before : List JsonToken) : ∀ (cs : List Char) (q : Quoted), q.pending = none → q.sound = true →
      ∃ q', (cs.flatMap fun c => ((Document.escape? c).getD (String.singleton c)).toList).foldlM scanChar
          ⟨before, .quoted q⟩ = some ⟨before, .quoted q'⟩ ∧
        q'.text? = some (String.ofList (q.chars.reverse ++ cs)) := by
    intro cs
    induction cs with
    | nil =>
      intro q hpending hsound
      exact ⟨q, rfl, by simp [Quoted.text?, hpending, hsound]⟩
    | cons c cs ih =>
      intro q hpending hsound
      obtain ⟨q', hq', htext⟩ := ih (q.push c) rfl (by simp [Quoted.push, hpending, hsound])
      refine ⟨q', ?_, by simpa [Quoted.push] using htext⟩
      rw [List.flatMap_cons, List.foldlM_append, scan_escaped]
      exact hq'
  intro before
  obtain ⟨q, hq, htext⟩ := inside before s.toList {} rfl rfl
  have hchars : (Document.quote s).toList =
      '"' :: ((s.toList.flatMap fun c => ((Document.escape? c).getD (String.singleton c)).toList) ++ ['"']) := by
    simp only [Document.quote, String.toList_append, String.toList_join, List.flatMap_map]
    rfl
  have hstart : scanChar ⟨before, .between⟩ '"' = some ⟨before, .quoted {}⟩ := rfl
  have hend : scanChar ⟨before, .quoted q⟩ '"' = some ⟨.text (some s) :: before, .between⟩ := by
    simp only [scanChar, if_true, htext]
    simp
  rw [hchars, List.foldlM_cons, hstart, Option.bind_eq_bind, Option.bind_some, List.foldlM_append, hq]
  simp [hend]

/-! ## Blocks -/

theorem closed_indent (level : Nat) : Closed (Document.indent level).toList [] := by
  rw [Document.indent, String.toList_ofList]
  exact closed_blanks fun c hc => by rw [List.eq_of_mem_replicate hc]; rfl

/-- Members on lines of their own, with commas between them. -/
theorem scans_lines {blanks : List Char} (hblanks : Closed blanks []) {members : List String}
    {pieces : List (List JsonToken)} (h : List.Forall₂ (fun m tokens => Scans m.toList tokens) members pieces) :
    Scans ([',', '\n'].intercalate (members.map fun m => blanks ++ m.toList)) ([.comma].intercalate pieces) := by
  induction h with
  | nil => exact (closed_blanks (by simp)).scans
  | @cons m tokens members pieces hm hrest ih =>
    have line : Scans (blanks ++ m.toList) tokens := hblanks.append_scans hm
    cases hrest with
    | nil => simpa using line
    | @cons m' tokens' members pieces hm' hrest =>
      have newline : Closed ['\n'] [] := closed_blank rfl
      have comma : Closed [',', '\n'] [.comma] := (closed_mark rfl).append newline
      have := (line.append_closed rfl comma).append_scans ih
      simpa [List.intercalate_cons_cons] using this

theorem closed_block {opening closing : String} {o c : Char} {left right : JsonToken} (level : Nat)
    (hopening : opening.toList = [o]) (hclosing : closing.toList = [c]) (ho : ofMark? o = some left)
    (hc : ofMark? c = some right) {members : List String} {pieces : List (List JsonToken)}
    (h : List.Forall₂ (fun m tokens => Scans m.toList tokens) members pieces) :
    Closed (Document.block opening closing level members).toList
    (left :: ([.comma].intercalate pieces ++ [right])) := by
  cases h with
  | nil =>
    have htext : (Document.block opening closing level []).toList = [o] ++ [c] := by
      rw [← hopening, ← hclosing, ← String.toList_append]
      rfl
    exact htext ▸ (closed_mark ho).append (closed_mark hc)
  | @cons m tokens members pieces hm hrest =>
    have newline : Closed ['\n'] [] := closed_blank rfl
    have lines := scans_lines (closed_indent (level + 1)) (.cons hm hrest)
    have last : Closed ('\n' :: ((Document.indent level).toList ++ [c])) [right] :=
      newline.append ((closed_indent level).append (closed_mark hc))
    have htext : (Document.block opening closing level (m :: members)).toList = [o] ++ ['\n'] ++
        ([',', '\n'].intercalate ((m :: members).map fun m => (Document.indent (level + 1)).toList ++ m.toList) ++
          '\n' :: ((Document.indent level).toList ++ [c])) := by
      rw [← hopening, ← hclosing]
      simp only [Document.block, List.isEmpty_cons, Bool.false_eq_true, if_false, String.toList_append,
        String.toList_intercalate, List.map_map, Function.comp_def, List.append_assoc]
      rfl
    exact htext ▸ ((closed_mark ho).append newline).append (lines.append_closed rfl last)

end JsonToken

namespace Json

open JsonToken (Scans Closed)

/-! ## Values out of tokens -/

/-- The tokens are this value, wherever it stands. -/
def Reads (tokens : List JsonToken) (j : Json) : Prop :=
  ∀ stack, tokens.foldlM Reader.read (.value stack) = some (.after j stack)

variable {tokens : List JsonToken} {j : Json}

theorem Reads.of_token {token : JsonToken} (h : ∀ stack, readValue stack token = some (.after j stack)) :
    Reads [token] j := by
  intro stack
  rw [List.foldlM_cons, Reader.read, h]
  rfl

/-- How the members of a container are read: where one may start, where the reader is behind one,
and what comes out at the end. -/
structure Members (β : Type) where
  start : Reader
  opened : List β → Reader
  entered : β → List β → Reader
  closing : JsonToken
  result : List β → Reader
  /-- The first member may start where the container may end. -/
  first : ∀ token r, (opened []).read token = some r → start.read token = some r
  moves : ∀ b done, opened [] ≠ entered b done
  comma : ∀ b done, (entered b done).read .comma = some (opened (b :: done))
  close : ∀ b done, (entered b done).read closing = some (result (b :: done).reverse)
  empty : start.read closing = some (result [])

namespace Members

variable {β : Type} (m : Members β) {pieces : List (List JsonToken)} {bs : List β}

/-- The tokens are this member, whatever stands before it. -/
def Member (tokens : List JsonToken) (b : β) : Prop :=
  ∀ done, tokens.foldlM Reader.read (m.opened done) = some (m.entered b done)

theorem foldlM_pieces (h : List.Forall₂ m.Member pieces bs) (hne : pieces ≠ []) (done : List β) :
    ∃ b rest, ([.comma].intercalate pieces).foldlM Reader.read (m.opened done) = some (m.entered b rest) ∧
      (b :: rest).reverse = done.reverse ++ bs := by
  induction h generalizing done with
  | nil => exact absurd rfl hne
  | @cons tokens b pieces bs htokens hrest ih =>
    cases hrest with
    | nil => exact ⟨b, done, by simpa using htokens done, by simp⟩
    | @cons tokens' b' pieces bs htokens' hrest =>
      obtain ⟨last, rest, hread, hmembers⟩ := ih (by simp) (b :: done)
      refine ⟨last, rest, ?_, by simpa using hmembers⟩
      rw [List.intercalate_cons_cons, List.append_assoc, List.foldlM_append, htokens done]
      change ([JsonToken.comma] ++ _).foldlM Reader.read (m.entered b done) = _
      rw [List.singleton_append, List.foldlM_cons, m.comma]
      exact hread

/-- All members up to the end of the container. -/
theorem foldlM_all (h : List.Forall₂ m.Member pieces bs) :
    ([.comma].intercalate pieces ++ [m.closing]).foldlM Reader.read m.start = some (m.result bs) := by
  rw [List.foldlM_append]
  by_cases hne : pieces = []
  · subst hne
    cases h
    change [m.closing].foldlM Reader.read m.start = _
    rw [List.foldlM_cons, m.empty]
    rfl
  · obtain ⟨b, rest, hread, hmembers⟩ := m.foldlM_pieces h hne []
    have hstart : ([.comma].intercalate pieces).foldlM Reader.read m.start = some (m.entered b rest) := by
      cases htokens : [JsonToken.comma].intercalate pieces with
      | nil =>
        rw [htokens] at hread
        exact absurd (Option.some.inj hread) (m.moves b rest)
      | cons token tokens =>
        rw [htokens, List.foldlM_cons, Option.bind_eq_bind, Option.bind_eq_some_iff] at hread
        obtain ⟨r, hr, hread⟩ := hread
        rw [List.foldlM_cons, m.first token r hr]
        exact hread
    rw [hstart]
    change [m.closing].foldlM Reader.read (m.entered b rest) = _
    rw [List.foldlM_cons, m.close, hmembers]
    rfl

end Members

/-- Items of a list. -/
def listMembers (stack : List Frame) : Members Json where
  start := .listStart stack
  opened done := .value (.list done :: stack)
  entered b done := .after b (.list done :: stack)
  closing := .rightBracket
  result bs := .after (.list bs) stack
  first token r h := by cases token <;> first | exact h | cases h
  moves _ _ := nofun
  comma _ _ := rfl
  close _ _ := rfl
  empty := rfl

/-- Fields of a record. -/
def recordMembers (stack : List Frame) : Members (Option String × Json) where
  start := .recordStart stack
  opened done := .key done stack
  entered b done := .after b.2 (.record done b.1 :: stack)
  closing := .rightBrace
  result bs := .after (.record bs) stack
  first token r h := by cases token <;> first | exact h | cases h
  moves _ _ := nofun
  comma _ _ := rfl
  close _ _ := rfl
  empty := rfl

/-- A list of values. -/
theorem Reads.list {pieces : List (List JsonToken)} {js : List Json} (h : List.Forall₂ Reads pieces js) :
    Reads (.leftBracket :: ([.comma].intercalate pieces ++ [.rightBracket])) (.list js) := by
  intro stack
  rw [List.foldlM_cons]
  exact (listMembers stack).foldlM_all (h.imp fun tokens b htokens done => htokens (.list done :: stack))

/-- A record of values. -/
theorem Reads.record {pieces : List (List JsonToken)} {fields : List (Option String × Json)}
    (h : List.Forall₂ (fun tokens field => ∃ value, tokens = .text field.1 :: .colon :: value ∧
      Reads value field.2) pieces fields) :
    Reads (.leftBrace :: ([.comma].intercalate pieces ++ [.rightBrace])) (.record fields) := by
  intro stack
  rw [List.foldlM_cons]
  refine (recordMembers stack).foldlM_all (h.imp fun tokens b htokens done => ?_)
  obtain ⟨value, rfl, hvalue⟩ := htokens
  exact hvalue (.record done b.1 :: stack)

end Json

/-! ## Documents -/

namespace Document

open JsonToken (Scans Closed)

/-- The text of the document is read as this value, at any level. -/
def Spells (d : Document) (j : Json) : Prop :=
  ∀ level, ∃ tokens, Scans (d.render level).toList tokens ∧ Json.Reads tokens j

variable {d : Document} {j : Json}

/-- What a document spells is what its text is read as. -/
theorem Spells.parse (h : d.Spells j) : Json.parse? d.text = some j := by
  obtain ⟨tokens, hscans, hreads⟩ := h 0
  obtain ⟨s, hs, hsettle⟩ := hscans []
  have htokens : JsonToken.ofText? d.text = some tokens := by
    rw [JsonToken.ofText?, Document.text, hs, Option.bind_some, JsonToken.finish_settle, hsettle]
    simp [JsonToken.Scan.finish]
  rw [Json.parse?, htokens, Option.bind_some, Json.ofTokens?, hreads []]
  rfl

theorem spells_word {text : String} {token : JsonToken} (hne : text.toList ≠ [])
    (hword : ∀ c ∈ text.toList, JsonToken.isWordChar c = true)
    (htoken : JsonToken.ofWord? text.toList = some token)
    (hread : ∀ stack, Json.readValue stack token = some (.after j stack)) : (Document.atom text).Spells j :=
  fun level => ⟨[token], by rw [render]; exact JsonToken.scans_word hne hword htoken, .of_token hread⟩

theorem spells_null : (Document.atom "null").Spells .null :=
  spells_word (by decide) (List.all_eq_true.1 (by decide)) rfl fun _ => rfl

theorem spells_ofString (s : String) : (Document.ofString s).Spells (.text (some s)) :=
  fun level =>
    ⟨[.text (some s)], by rw [ofString, render]; exact (JsonToken.closed_quote s).scans, .of_token fun _ => rfl⟩

/-- A list spells the list of what its items spell. -/
theorem Spells.list {items : List Document} {js : List Json} (h : List.Forall₂ Spells items js) :
    (Document.list items).Spells (.list js) := by
  intro level
  have found : ∃ pieces, List.Forall₂ (fun m tokens => Scans m.toList tokens) (renderItems (level + 1) items)
      pieces ∧ List.Forall₂ Json.Reads pieces js := by
    induction h with
    | nil => exact ⟨[], .nil, .nil⟩
    | cons hd _ ih =>
      obtain ⟨tokens, hscans, hreads⟩ := hd (level + 1)
      obtain ⟨pieces, hpieces, hjs⟩ := ih
      exact ⟨tokens :: pieces, .cons hscans hpieces, .cons hreads hjs⟩
  obtain ⟨pieces, hpieces, hjs⟩ := found
  refine ⟨_, ?_, .list hjs⟩
  rw [render]
  exact (JsonToken.closed_block level rfl rfl rfl rfl hpieces).scans

/-- A record spells the record of what its fields spell. -/
theorem Spells.record {fields : List (String × Document)} {js : List (Option String × Json)}
    (h : List.Forall₂ (fun field j => j.1 = some field.1 ∧ field.2.Spells j.2) fields js) :
    (Document.record fields).Spells (.record js) := by
  intro level
  have found : ∃ pieces, List.Forall₂ (fun m tokens => Scans m.toList tokens) (renderFields (level + 1) fields)
      pieces ∧ List.Forall₂ (fun tokens field => ∃ value, tokens = .text field.1 :: .colon :: value ∧
        Json.Reads value field.2) pieces js := by
    induction h with
    | nil => exact ⟨[], .nil, .nil⟩
    | @cons field j fields js hd _ ih =>
      obtain ⟨hkey, hd⟩ := hd
      obtain ⟨tokens, hscans, hreads⟩ := hd (level + 1)
      obtain ⟨pieces, hpieces, hjs⟩ := ih
      refine ⟨(.text (some field.1) :: .colon :: tokens) :: pieces, .cons ?_ hpieces,
        .cons ⟨tokens, by rw [hkey], hreads⟩ hjs⟩
      have blank : Closed [' '] [] := JsonToken.closed_blank rfl
      have colon : Closed [':', ' '] [.colon] := (JsonToken.closed_mark rfl).append blank
      rw [String.toList_append, String.toList_append]
      exact ((JsonToken.closed_quote field.1).append colon).append_scans hscans
  obtain ⟨pieces, hpieces, hjs⟩ := found
  refine ⟨_, ?_, .record hjs⟩
  rw [render]
  exact (JsonToken.closed_block level rfl rfl rfl rfl hpieces).scans

end Document

end NetLower
