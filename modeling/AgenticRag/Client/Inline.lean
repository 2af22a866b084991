import AgenticRag.Graph.Citations

/-!
# Inline markup of the web client

The tokens of `INLINE` and what `inline` makes of them.  The pieces of each alternative are
disjoint character classes, so a match never has to backtrack.  Of the elements only the
citation markers are kept: what is emphasized is tokenized again, what is code is not.
-/

namespace AgenticRag.Client

open AgenticRag.Citations

abbrev Text := List Char

/-- `\s` of JavaScript: other than in Python the byte order mark is one, and the separators
of the control block are not. -/
def isJsSpace (char : Char) : Bool :=
  let code := char.toNat
  (9 ≤ code && code ≤ 13) || code == 0x20 || code == 0xA0 || code == 0x1680 ||
    (0x2000 ≤ code && code ≤ 0x200A) || code == 0x2028 || code == 0x2029 || code == 0x202F ||
    code == 0x205F || code == 0x3000 || code == 0xFEFF

/-- `\d` of JavaScript. -/
def isJsDigit (char : Char) : Bool :=
  48 ≤ char.toNat && char.toNat ≤ 57

/-- A citation marker of the answer: the token, and the digits it hands to `cite`. -/
structure Marker where
  source : Text
  digits : List Text

def Marker.numbers (marker : Marker) : List ℕ :=
  marker.digits.map numberOf

inductive Token where
  | strong (content : Text)
  | code
  | em (content : Text)
  | marker (marker : Marker)

/-- `\*\*[^*]+?\*\*` -/
def matchStrong : Text → Option (Token × Text)
  | '*' :: '*' :: rest =>
      let content := rest.takeWhile (· ≠ '*')
      match rest.dropWhile (· ≠ '*') with
      | '*' :: '*' :: remaining =>
          if content = [] then none else some (.strong content, remaining)
      | _ => none
  | _ => none

/-- A code span: one backtick, other characters, one backtick. -/
def matchCode : Text → Option (Token × Text)
  | '\x60' :: rest =>
      match rest.dropWhile (· ≠ '\x60') with
      | _ :: remaining =>
          if rest.takeWhile (· ≠ '\x60') = [] then none else some (.code, remaining)
      | [] => none
  | _ => none

/-- `\*[^*\s][^*]*?\*` -/
def matchEm : Text → Option (Token × Text)
  | '*' :: first :: rest =>
      if first = '*' ∨ isJsSpace first then none
      else
        match rest.dropWhile (· ≠ '*') with
        | _ :: remaining => some (.em (first :: rest.takeWhile (· ≠ '*')), remaining)
        | [] => none
  | _ => none

/-- `(?:\s*,\s*\d+)*`: the digits of the groups and the text behind the last one.  Every
group is at least two characters long. -/
def moreNumbers : ℕ → Text → List Text × Text
  | 0, text => ([], text)
  | fuel + 1, text =>
      match text.dropWhile isJsSpace with
      | ',' :: rest =>
          let body := rest.dropWhile isJsSpace
          if body.takeWhile isJsDigit = [] then ([], text)
          else
            let (more, remaining) := moreNumbers fuel (body.dropWhile isJsDigit)
            (body.takeWhile isJsDigit :: more, remaining)
      | _ => ([], text)

/-- `\[\d+(?:\s*,\s*\d+)*\]` -/
def matchList (text : Text) : Option (Token × Text) :=
  match text with
  | '[' :: rest =>
      if rest.takeWhile isJsDigit = [] then none
      else
        match moreNumbers rest.length (rest.dropWhile isJsDigit) with
        | (more, ']' :: remaining) =>
            some (.marker {
              source := text.take (text.length - remaining.length)
              digits := rest.takeWhile isJsDigit :: more }, remaining)
        | _ => none
  | _ => none

/-- `【\s*\d+\s*(?:†[^】]*)?】` -/
def matchNativeToken (text : Text) : Option (Token × Text) :=
  match text with
  | '【' :: rest =>
      let body := rest.dropWhile isJsSpace
      let digits := body.takeWhile isJsDigit
      let token (remaining : Text) : Option (Token × Text) :=
        some (.marker {
          source := text.take (text.length - remaining.length), digits := [digits] }, remaining)
      if digits = [] then none
      else
        match (body.dropWhile isJsDigit).dropWhile isJsSpace with
        | '】' :: remaining => token remaining
        | '†' :: note =>
            match note.dropWhile (· ≠ '】') with
            | _ :: remaining => token remaining
            | [] => none
        | _ => none
  | _ => none

/-- A match of `INLINE` at the head of the text, and the text behind it. -/
def matchToken (text : Text) : Option (Token × Text) :=
  matchStrong text <|> matchCode text <|> matchEm text <|> matchList text <|>
    matchNativeToken text

/-- The text that is tokenized again. -/
def Token.content : Token → Text
  | .strong content => content
  | .em content => content
  | .code => []
  | .marker _ => []

/-- The marker that is handed to `cite`. -/
def Token.cited : Token → List Marker
  | .marker cited => [cited]
  | .strong _ => []
  | .em _ => []
  | .code => []

/-! ## What the tokens look like -/

/-- How a marker is written: as `[n]`, as a list of numbers, or natively. -/
inductive Marker.Form (marker : Marker) : Prop where
  | single (digits : Text) (hone : marker.digits = [digits]) (hne : digits ≠ [])
      (hdigits : ∀ char ∈ digits, isJsDigit char = true)
      (hsource : marker.source = '[' :: (digits ++ [']']))
  | several (hmany : 2 ≤ marker.digits.length)
  | native (digits front back closing : Text) (hone : marker.digits = [digits])
      (hne : digits ≠ []) (hdigits : ∀ char ∈ digits, isJsDigit char = true)
      (hfront : ∀ char ∈ front, isJsSpace char = true)
      (hback : ∀ char ∈ back, isJsSpace char = true)
      (hclosing : closing = ['】'] ∨ ∃ note, '】' ∉ note ∧ closing = '†' :: (note ++ ['】']))
      (hsource : marker.source = '【' :: (front ++ (digits ++ (back ++ closing))))

/-- The token is read from this text. -/
def Token.ReadFrom (source : Text) : Token → Prop
  | .strong content => source = '*' :: '*' :: (content ++ ['*', '*'])
  | .em content => source = '*' :: (content ++ ['*'])
  | .code => source ≠ []
  | .marker cited => cited.source = source ∧ source ≠ [] ∧ cited.Form

theorem takeWhile_append_rest {p : Char → Bool} {text rest : Text}
    (hrest : text.dropWhile p = rest) : text.takeWhile p ++ rest = text := by
  rw [← hrest, List.takeWhile_append_dropWhile]

theorem take_sub_append (source remaining : Text) :
    (source ++ remaining).take ((source ++ remaining).length - remaining.length) = source := by
  rw [List.length_append, Nat.add_sub_cancel, List.take_left]

theorem matchStrong_spec {text remaining : Text} {token : Token}
    (hmatch : matchStrong text = some (token, remaining)) :
    ∃ source, text = source ++ remaining ∧ token.ReadFrom source := by
  unfold matchStrong at hmatch
  split at hmatch
  · rename_i rest
    dsimp only at hmatch
    split at hmatch
    · rename_i behind hclose
      split_ifs at hmatch
      cases hmatch
      refine ⟨'*' :: '*' :: (rest.takeWhile (· ≠ '*') ++ ['*', '*']), ?_, rfl⟩
      have hrest := takeWhile_append_rest hclose
      simpa using hrest.symm
    · cases hmatch
  · cases hmatch

theorem matchCode_spec {text remaining : Text} {token : Token}
    (hmatch : matchCode text = some (token, remaining)) :
    ∃ source, text = source ++ remaining ∧ token.ReadFrom source := by
  unfold matchCode at hmatch
  split at hmatch
  · rename_i rest
    split at hmatch
    · rename_i closing behind hclose
      split_ifs at hmatch
      cases hmatch
      refine ⟨'\x60' :: (rest.takeWhile (· ≠ '\x60') ++ [closing]), ?_, List.cons_ne_nil _ _⟩
      have hrest := takeWhile_append_rest hclose
      simpa using hrest.symm
    · cases hmatch
  · cases hmatch

theorem matchEm_spec {text remaining : Text} {token : Token}
    (hmatch : matchEm text = some (token, remaining)) :
    ∃ source, text = source ++ remaining ∧ token.ReadFrom source := by
  unfold matchEm at hmatch
  split at hmatch
  · rename_i first rest
    split_ifs at hmatch
    split at hmatch
    · rename_i closing behind hclose
      cases hmatch
      have hstar : closing = '*' := by
        have hhead := List.head?_dropWhile_not (fun char => decide (char ≠ '*')) rest
        rw [hclose] at hhead
        simpa using hhead
      refine ⟨'*' :: (first :: rest.takeWhile (· ≠ '*') ++ ['*']), ?_, rfl⟩
      have hrest := takeWhile_append_rest hclose
      rw [hstar] at hrest
      simpa using hrest.symm
    · cases hmatch
  · cases hmatch

/-- Without another group the text stays. -/
theorem moreNumbers_spec (fuel : ℕ) (text : Text) :
    (moreNumbers fuel text).2 <:+ text ∧
      ((moreNumbers fuel text).1 = [] → (moreNumbers fuel text).2 = text) := by
  induction fuel generalizing text with
  | zero => exact ⟨List.suffix_rfl, fun _ => rfl⟩
  | succ fuel ih =>
      rw [moreNumbers]
      split
      · rename_i rest hcomma
        dsimp only
        split_ifs with hnone
        · exact ⟨List.suffix_rfl, fun _ => rfl⟩
        · refine ⟨?_, fun hempty => by cases hempty⟩
          have hsuffix : ',' :: rest <:+ text := hcomma ▸ List.dropWhile_suffix _
          exact (((ih _).1.trans (List.dropWhile_suffix _)).trans
            (List.dropWhile_suffix _)).trans ((List.suffix_cons _ _).trans hsuffix)
      · exact ⟨List.suffix_rfl, fun _ => rfl⟩

theorem matchList_spec {text remaining : Text} {token : Token}
    (hmatch : matchList text = some (token, remaining)) :
    ∃ source, text = source ++ remaining ∧ token.ReadFrom source := by
  unfold matchList at hmatch
  split at hmatch
  · rename_i rest
    split_ifs at hmatch with hnone
    split at hmatch
    · rename_i more behind hmore
      cases hmatch
      obtain ⟨hsuffix, hsame⟩ := moreNumbers_spec rest.length (rest.dropWhile isJsDigit)
      rw [hmore] at hsuffix hsame
      obtain ⟨groups, hgroups⟩ := hsuffix
      have hrest : rest = rest.takeWhile isJsDigit ++ (groups ++ ']' :: remaining) := by
        rw [hgroups, List.takeWhile_append_dropWhile]
      have hsplit : '[' :: rest =
          '[' :: (rest.takeWhile isJsDigit ++ (groups ++ [']'])) ++ remaining := by
        conv_lhs => rw [hrest]
        simp
      refine ⟨'[' :: (rest.takeWhile isJsDigit ++ (groups ++ [']'])), hsplit, ?_,
        List.cons_ne_nil _ _, ?_⟩
      · rw [hsplit, take_sub_append]
      · cases more with
        | cons second more => exact .several (by simp)
        | nil =>
            have hempty : groups = [] := by
              have hlength := congrArg List.length (hgroups.trans (hsame rfl).symm)
              rw [List.length_append] at hlength
              exact List.length_eq_zero_iff.mp (by omega)
            refine .single (rest.takeWhile isJsDigit) rfl hnone
              (fun char => List.mem_takeWhile_imp) ?_
            rw [hsplit, take_sub_append, hempty, List.nil_append]
    · cases hmatch
  · cases hmatch

/-- What is read of a native marker, from its bracket to its end. -/
theorem matchNativeToken_spec {text remaining : Text} {token : Token}
    (hmatch : matchNativeToken text = some (token, remaining)) :
    ∃ source, text = source ++ remaining ∧ token.ReadFrom source := by
  unfold matchNativeToken at hmatch
  split at hmatch
  · rename_i rest
    dsimp only at hmatch
    split_ifs at hmatch with hnone
    obtain ⟨closing, hclosing, hend, htoken⟩ : ∃ closing,
        (closing = ['】'] ∨ ∃ note, '】' ∉ note ∧ closing = '†' :: (note ++ ['】'])) ∧
        ((rest.dropWhile isJsSpace).dropWhile isJsDigit).dropWhile isJsSpace =
          closing ++ remaining ∧
        token = .marker {
          source := ('【' :: rest).take (('【' :: rest).length - remaining.length)
          digits := [(rest.dropWhile isJsSpace).takeWhile isJsDigit] } := by
      split at hmatch
      · rename_i behind hclose
        cases hmatch
        exact ⟨['】'], .inl rfl, hclose, rfl⟩
      · rename_i note hnote
        split at hmatch
        · rename_i head behind hdrop
          cases hmatch
          have hhead : head = '】' := by
            have hstop := List.head?_dropWhile_not (fun char => decide (char ≠ '】')) note
            rw [hdrop] at hstop
            simpa using hstop
          refine ⟨'†' :: (note.takeWhile (· ≠ '】') ++ ['】']), .inr ⟨_, ?_, rfl⟩, ?_, rfl⟩
          · intro hmem
            simpa using List.mem_takeWhile_imp hmem
          · rw [hhead] at hdrop
            rw [hnote]
            simpa using (takeWhile_append_rest hdrop).symm
        · cases hmatch
      · cases hmatch
    have hsplit : '【' :: rest = '【' :: (rest.takeWhile isJsSpace ++
        ((rest.dropWhile isJsSpace).takeWhile isJsDigit ++
          (((rest.dropWhile isJsSpace).dropWhile isJsDigit).takeWhile isJsSpace ++ closing))) ++
            remaining := by
      simp only [List.cons_append, List.append_assoc, ← hend, List.takeWhile_append_dropWhile]
    refine ⟨_, hsplit, ?_⟩
    rw [htoken]
    rw [hsplit, take_sub_append]
    exact ⟨rfl, List.cons_ne_nil _ _, .native _ _ _ _ rfl hnone
      (fun _ => List.mem_takeWhile_imp) (fun _ => List.mem_takeWhile_imp)
      (fun _ => List.mem_takeWhile_imp) hclosing rfl⟩
  · cases hmatch

/-- Every token is read from the head of the text. -/
theorem matchToken_spec {text remaining : Text} {token : Token}
    (hmatch : matchToken text = some (token, remaining)) :
    ∃ source, text = source ++ remaining ∧ token.ReadFrom source := by
  rw [matchToken] at hmatch
  simp only [Option.orElse_eq_orElse, Option.orElse_eq_or, Option.or_eq_some_iff] at hmatch
  cases hmatch with
  | inl hstrong => exact matchStrong_spec hstrong
  | inr hother =>
      cases hother.2 with
      | inl hcode => exact matchCode_spec hcode
      | inr hother =>
          cases hother.2 with
          | inl hem => exact matchEm_spec hem
          | inr hother =>
              cases hother.2 with
              | inl hlist => exact matchList_spec hlist
              | inr hother => exact matchNativeToken_spec hother.2

/-- What is tokenized after a match is shorter than the text. -/
theorem length_matchToken {text remaining : Text} {token : Token}
    (hmatch : matchToken text = some (token, remaining)) :
    token.content.length < text.length ∧ remaining.length < text.length := by
  obtain ⟨source, rfl, hread⟩ := matchToken_spec hmatch
  have hlonger : token.content.length < source.length := by
    cases token with
    | strong content =>
        rw [show source = _ from hread]
        simp [Token.content]
        omega
    | em content =>
        rw [show source = _ from hread]
        simp [Token.content]
    | code => exact List.length_pos_iff.mpr hread
    | marker cited => exact List.length_pos_iff.mpr hread.2.1
  rw [List.length_append]
  omega

/-! ## The markers of a text -/

/-- The citation markers `inline` hands to `cite`. -/
def inlineMarkers (text : Text) : List Marker :=
  match text with
  | [] => []
  | char :: rest =>
      match _hmatch : matchToken (char :: rest) with
      | none => inlineMarkers rest
      | some (token, remaining) =>
          token.cited ++ (inlineMarkers token.content ++ inlineMarkers remaining)
termination_by text.length
decreasing_by
  · exact Nat.lt_succ_self _
  · exact (length_matchToken _hmatch).1
  · exact (length_matchToken _hmatch).2

theorem inlineMarkers_plain {char : Char} {rest : Text}
    (hnone : matchToken (char :: rest) = none) :
    inlineMarkers (char :: rest) = inlineMarkers rest := by
  rw [inlineMarkers]
  split
  · rfl
  · rename_i hfound
    rw [hnone] at hfound
    cases hfound

theorem inlineMarkers_token {text remaining : Text} {token : Token}
    (hfound : matchToken text = some (token, remaining)) :
    inlineMarkers text =
      token.cited ++ (inlineMarkers token.content ++ inlineMarkers remaining) := by
  cases text with
  | nil => cases hfound
  | cons char rest =>
      rw [inlineMarkers]
      split
      · rename_i hnone
        rw [hnone] at hfound
        cases hfound
      · rename_i other behind hother
        rw [hother] at hfound
        cases hfound
        rfl

theorem Token.ReadFrom.content {source : Text} {token : Token} (hread : token.ReadFrom source) :
    token.content <:+: source := by
  cases token with
  | strong content => exact ⟨['*', '*'], ['*', '*'], Eq.trans (by simp [Token.content]) (Eq.symm hread)⟩
  | em content => exact ⟨['*'], ['*'], Eq.trans (by simp [Token.content]) (Eq.symm hread)⟩
  | code => exact List.nil_infix
  | marker cited => exact List.nil_infix

theorem Token.ReadFrom.cited {source : Text} {token : Token} (hread : token.ReadFrom source)
    {cited : Marker} (hcited : cited ∈ token.cited) : cited.source = source ∧ cited.Form := by
  cases token with
  | marker own =>
      rw [List.mem_singleton.mp hcited]
      exact ⟨hread.1, hread.2.2⟩
  | strong content => cases hcited
  | em content => cases hcited
  | code => cases hcited

/-- A marker that is shown stands in the text, in one of its forms. -/
theorem mem_inlineMarkers {text : Text} {cited : Marker} (hcited : cited ∈ inlineMarkers text) :
    cited.source <:+: text ∧ cited.Form := by
  induction text using inlineMarkers.induct with
  | case1 =>
      rw [inlineMarkers] at hcited
      cases hcited
  | case2 char rest hnone ih =>
      rw [inlineMarkers_plain hnone] at hcited
      obtain ⟨hwithin, hform⟩ := ih hcited
      exact ⟨hwithin.trans (List.suffix_cons _ _).isInfix, hform⟩
  | case3 char rest token remaining hfound ihContent ihRest =>
      obtain ⟨source, hsplit, hread⟩ := matchToken_spec hfound
      rw [inlineMarkers_token hfound, List.mem_append, List.mem_append] at hcited
      rw [hsplit]
      cases hcited with
      | inl hown =>
          obtain ⟨hsource, hform⟩ := hread.cited hown
          exact ⟨hsource ▸ (List.prefix_append _ _).isInfix, hform⟩
      | inr hlater =>
          cases hlater with
          | inl hcontent =>
              obtain ⟨hwithin, hform⟩ := ihContent hcontent
              exact ⟨(hwithin.trans hread.content).trans (List.prefix_append _ _).isInfix, hform⟩
          | inr hrest =>
              obtain ⟨hwithin, hform⟩ := ihRest hrest
              exact ⟨hwithin.trans (List.suffix_append _ _).isInfix, hform⟩

end AgenticRag.Client
