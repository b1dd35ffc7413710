import Abacus.Options.Arguments

/-!
# Words put behind a command

What a word of a command is depends on the word alone, as long as no separator has come, and the
words are read from left to right. So where a command can be read that names no input and has no
separator, words can be put behind it, and are read on from what it says. Two things could go wrong
in general and cannot here. An option at the end might take the first new word as its argument; but
then the command on its own would lack one. And a word might find the place of the input taken; but
it is only taken by an input that is given, or by a separator.
-/

namespace Abacus.Options

variable {words more expressions : List String} {ws vs : List Word} {p q : Progress}
  {text name : String} {a b : Arguments} {settings : List Setting}

/-! ## What the words are -/

theorem Word.ofString_of_no_dash (h : text.toList.head? ≠ some '-') :
    Word.ofString text = .ok (.plain text) := by
  rw [Word.ofString]
  split
  · rfl
  · rfl
  · next hlist =>
      rw [hlist] at h
      exact absurd rfl h
  · rfl

namespace Word

theorem separator_not_mem_candidates (word : List Char) :
    .separator ∉ longCandidates word ∧ .separator ∉ shortCandidates word := by
  constructor
  · simp [longCandidates]
  · intro h
    obtain ⟨⟨name, flag⟩, -, hword⟩ := List.mem_filterMap.1 h
    dsimp only at hword
    split at hword
    · exact nomatch Option.some.inj hword
    · split at hword
      · exact nomatch Option.some.inj hword
      · cases hword

theorem ofCandidates_ne_separator {candidates : List Word} (h : .separator ∉ candidates) :
    ofCandidates text candidates ≠ .ok .separator := by
  intro hword
  unfold ofCandidates at hword
  split at hword
  · cases hword
    exact h (by simp)
  · split at hword <;> cases hword
  · cases hword

theorem ofString_ne_separator (text : String) : ofString text ≠ .ok .separator := by
  intro h
  unfold ofString at h
  split at h
  · cases h
  · cases h
  · split at h
    · cases h
    · dsimp only at h
      split at h
      · cases h
      · refine ofCandidates_ne_separator ?_ h
        split
        · exact (separator_not_mem_candidates _).1
        · exact (separator_not_mem_candidates _).2
  · cases h

theorem exists_of_ofStrings_cons (hsep : "--" ∉ text :: words)
    (h : ofStrings (text :: words) = .ok ws) :
    ∃ word rest, ofString text = .ok word ∧ ofStrings words = .ok rest ∧ ws = word :: rest := by
  rw [ofStrings, if_neg fun heq => hsep (by simp [heq])] at h
  cases hword : ofString text with
  | error m => rw [hword] at h; cases h
  | ok word =>
      cases hrest : ofStrings words with
      | error m => rw [hword, hrest] at h; cases h
      | ok rest =>
          rw [hword, hrest] at h
          cases h
          exact ⟨word, rest, rfl, rfl, rfl⟩

theorem ofStrings_cons {word : Word} (hword : ofString text = .ok word) (hne : text ≠ "--")
    (h : ofStrings words = .ok ws) : ofStrings (text :: words) = .ok (word :: ws) := by
  rw [ofStrings, if_neg hne, hword, h]
  rfl

theorem separator_not_mem (hsep : "--" ∉ words) (h : ofStrings words = .ok ws) :
    .separator ∉ ws := by
  induction words generalizing ws with
  | nil => cases h; simp
  | cons text words ih =>
      obtain ⟨word, rest, hword, hrest, rfl⟩ := exists_of_ofStrings_cons hsep h
      rw [List.mem_cons, not_or] at hsep ⊢
      exact ⟨fun heq => ofString_ne_separator text (heq ▸ hword), ih hsep.2 hrest⟩

theorem ofStrings_append (hsep : "--" ∉ words) (h : ofStrings words = .ok ws)
    (hmore : ofStrings more = .ok vs) : ofStrings (words ++ more) = .ok (ws ++ vs) := by
  induction words generalizing ws with
  | nil => cases h; exact hmore
  | cons text words ih =>
      obtain ⟨word, rest, hword, hrest, rfl⟩ := exists_of_ofStrings_cons hsep h
      rw [List.mem_cons, not_or] at hsep
      exact ofStrings_cons hword (Ne.symm hsep.1) (ih hsep.2 hrest)

end Word

/-! ## What they do -/

namespace Progress

/-- From `p`, the words are read one option or word at a time, which leads to `q`. There is no
separator among them. -/
inductive Reads : Progress → List Word → Progress → Prop
  | nil (p : Progress) : Reads p [] p
  | unknown {p q : Progress} {text : String} {ws : List Word}
      (h : Reads (p.leave [.unknown text]) ws q) : Reads p (.unknown text :: ws) q
  | leave {p q : Progress} {text : String} {ws : List Word} (htaken : p.inputTaken = true)
      (h : Reads (p.leave [.plain text]) ws q) : Reads p (.plain text :: ws) q
  | input {p q : Progress} {text : String} {ws : List Word} (htaken : p.inputTaken = false)
      (h : Reads (p.takeInput text) ws q) : Reads p (.plain text :: ws) q
  | option {p p' q : Progress} {flag : Flag} {name : String} {attached : Option String}
      {settings : List Setting} {ws : List Word}
      (hs : settingsOf flag name attached = .ok (settings, none)) (hp : p.set settings = .ok p')
      (h : Reads p' ws q) : Reads p (.option flag name attached :: ws) q
  | argument {p p' q : Progress} {flag last : Flag} {name text : String} {attached : Option String}
      {settings : List Setting} {ws : List Word}
      (hs : settingsOf flag name attached = .ok (settings, some last))
      (hp : p.set (settings ++ [⟨last, .text text⟩]) = .ok p') (h : Reads p' ws q) :
      Reads p (.option flag name attached :: .plain text :: ws) q

theorem reads_of_read (hsep : .separator ∉ ws) (h : p.read ws = .ok q) : Reads p ws q := by
  fun_induction Progress.read p ws with
  | case1 p => cases h; exact .nil _
  | case2 p text more ih => exact .unknown (ih (by simp_all) h)
  | case3 p text more htaken ih => exact .leave htaken (ih (by simp_all) h)
  | case4 | case6 | case7 | case8 => simp at hsep
  | case5 p text more htaken hmore ih =>
      exact .input (by simpa using htaken) (ih (by simp_all) h)
  | case9 | case12 => cases h
  | case10 p flag name attached more settings hs ih =>
      cases hp : p.set settings with
      | error e => rw [hp] at h; cases h
      | ok p' =>
          rw [hp] at h
          exact .option hs hp (ih p' (by simp_all) h)
  | case11 p flag name attached settings last hs text rest ih =>
      cases hp : p.set (settings ++ [⟨last, .text text⟩]) with
      | error e => rw [hp] at h; cases h
      | ok p' =>
          rw [hp] at h
          exact .argument hs hp (ih p' (by simp_all) h)

theorem Reads.read (h : Reads p ws q) (hsep : .separator ∉ ws) : p.read ws = .ok q := by
  induction h with
  | nil p => rfl
  | unknown _ ih => exact ih (by simp_all)
  | leave htaken _ ih =>
      rw [Progress.read, if_pos htaken]
      · exact ih (by simp_all)
      · rintro rest rfl
        simp at hsep
  | input htaken _ ih =>
      rw [Progress.read, if_neg (by simp [htaken])]
      · exact ih (by simp_all)
      · rintro rest rfl
        simp at hsep
  | option hs hp _ ih =>
      rw [Progress.read, hs]
      dsimp only
      rw [hp]
      exact ih (by simp_all)
  | argument hs hp _ ih =>
      rw [Progress.read, hs]
      dsimp only
      rw [hp]
      exact ih (by simp_all)

theorem Reads.append {r : Progress} (h : Reads p ws q) (h' : Reads q vs r) :
    Reads p (ws ++ vs) r := by
  induction h with
  | nil p => exact h'
  | unknown _ ih => exact .unknown (ih h')
  | leave htaken _ ih => exact .leave htaken (ih h')
  | input htaken _ ih => exact .input htaken (ih h')
  | option hs hp _ ih => exact .option hs hp (ih h')
  | argument hs hp _ ih => exact .argument hs hp (ih h')

/-- The place of the input is taken just if there is an input. -/
def Sound (p : Progress) : Prop :=
  p.inputTaken = p.arguments.input.isSome

theorem set_cons (p : Progress) (s : Setting) (settings : List Setting) :
    p.set (s :: settings) = (p.arguments.set s).bind fun a =>
      ({ p with arguments := a } : Progress).set settings := by
  rw [set, List.foldlM_cons]
  cases p.arguments.set s <;> rfl

theorem input_set {s : Setting} {a' : Arguments} (h : a.set s = .ok a') : a'.input = a.input := by
  obtain ⟨flag, argument⟩ := s
  cases flag <;> cases h <;> rfl

theorem Sound.set (hp : p.Sound) (h : p.set settings = .ok q) : q.Sound := by
  induction settings generalizing p with
  | nil => cases h; exact hp
  | cons s settings ih =>
      rw [set_cons] at h
      cases ha : p.arguments.set s with
      | error e => rw [ha] at h; cases h
      | ok a =>
          rw [ha] at h
          have ha' : Sound { p with arguments := a } := by
            rw [Sound, input_set ha]
            exact hp
          exact ih ha' h

theorem Reads.sound (h : Reads p ws q) (hp : p.Sound) : q.Sound := by
  induction h with
  | nil => exact hp
  | unknown _ ih | leave _ _ ih => exact ih hp
  | input _ _ ih => exact ih rfl
  | option _ hs _ ih | argument _ hs _ ih => exact ih (hp.set hs)

/-- One more option with an expression for each of them. -/
def withExpressions (p : Progress) (expressions : List String) : Progress :=
  { p with arguments := { p.arguments with
    expressions := p.arguments.expressions ++ expressions.map .text } }

theorem reads_expressions (p : Progress) (expressions : List String) :
    Reads p (expressions.flatMap fun e => [.option .expression "-e" none, .plain e])
      (p.withExpressions expressions) := by
  induction expressions generalizing p with
  | nil =>
      have hnone : p.withExpressions [] = p := by simp [withExpressions]
      rw [hnone]
      exact .nil p
  | cons e expressions ih =>
      have hcons : p.withExpressions (e :: expressions) =
          (p.withExpressions [e]).withExpressions expressions := by simp [withExpressions]
      rw [hcons]
      have hread : settingsOf .expression "-e" none = .ok ([], some .expression) := rfl
      exact .argument hread rfl (ih _)

end Progress

/-! ## What the command says -/

theorem Arguments.exists_reads (hsep : "--" ∉ words) (h : Arguments.ofWords words = .ok a) :
    ∃ ws p, Word.ofStrings words = .ok ws ∧ Progress.start.Reads ws p ∧ p.arguments = a ∧
      p.leftOver = [] := by
  rw [Arguments.ofWords] at h
  cases hws : Word.ofStrings words with
  | error m => rw [hws] at h; cases h
  | ok ws =>
      rw [hws] at h
      dsimp only at h
      cases hp : Progress.start.read ws with
      | error e => rw [hp] at h; cases h
      | ok p =>
          rw [hp] at h
          have hread := Progress.reads_of_read (Word.separator_not_mem hsep hws) hp
          dsimp only [bind, Except.bind] at h
          split at h
          · next hleft =>
              cases h
              exact ⟨ws, p, rfl, hread, rfl, List.isEmpty_iff.1 hleft⟩
          · cases h

/-- Words behind a command without a separator say what they say after it. -/
theorem Arguments.ofWords_append (hsep : "--" ∉ words) (hsep' : "--" ∉ more)
    (h : Arguments.ofWords words = .ok a) (hmore : Word.ofStrings more = .ok vs)
    (hread : ∀ p : Progress, p.arguments = a → p.Sound → p.leftOver = [] →
      ∃ q, p.Reads vs q ∧ q.arguments = b ∧ q.leftOver = []) :
    Arguments.ofWords (words ++ more) = .ok b := by
  obtain ⟨ws, p, hws, hp, harguments, hleft⟩ := Arguments.exists_reads hsep h
  obtain ⟨q, hq, rfl, hnone⟩ := hread p harguments (hp.sound rfl) hleft
  have hall : "--" ∉ words ++ more := by simp [hsep, hsep']
  have hwords := Word.ofStrings_append hsep hws hmore
  have happend := (hp.append hq).read (Word.separator_not_mem hall hwords)
  rw [Arguments.ofWords, hwords]
  dsimp only
  rw [happend]
  dsimp only [bind, Except.bind]
  rw [hnone]
  rfl

theorem Word.ofStrings_expressions (h : ∀ e ∈ expressions, e.toList.head? ≠ some '-') :
    Word.ofStrings (expressions.flatMap fun e => ["-e", e]) =
      .ok (expressions.flatMap fun e => [.option .expression "-e" none, .plain e]) := by
  induction expressions with
  | nil => rfl
  | cons e expressions ih =>
      obtain ⟨he, hmore⟩ := List.forall_mem_cons.1 h
      have hne : e ≠ "--" := by
        rintro rfl
        exact he rfl
      exact ofStrings_cons rfl (by decide) (ofStrings_cons (ofString_of_no_dash he) hne (ih hmore))

/-- The expressions behind a command are added to those that it gives. -/
theorem Arguments.ofWords_expressions (hsep : "--" ∉ words) (h : Arguments.ofWords words = .ok a)
    (hdash : ∀ e ∈ expressions, e.toList.head? ≠ some '-') :
    Arguments.ofWords (words ++ expressions.flatMap fun e => ["-e", e]) =
      .ok { a with expressions := a.expressions ++ expressions.map .text } := by
  refine Arguments.ofWords_append hsep ?_ h (Word.ofStrings_expressions hdash)
    fun p harguments _ hleft => ⟨_, p.reads_expressions expressions, ?_, hleft⟩
  · intro hmem
    obtain ⟨e, he, hmem⟩ := List.mem_flatMap.1 hmem
    simp only [List.mem_cons, List.not_mem_nil, or_false] at hmem
    rcases hmem with hmem | rfl
    · exact absurd hmem (by decide)
    · exact hdash _ he rfl
  · rw [Progress.withExpressions, harguments]

/-- A name behind a command that names no input is its input. -/
theorem Arguments.ofWords_input (hsep : "--" ∉ words) (h : Arguments.ofWords words = .ok a)
    (hnone : a.input = .none) (hname : Word.ofString name = .ok (.plain name)) :
    Arguments.ofWords (words ++ [name]) = .ok { a with input := some name } := by
  have hne : name ≠ "--" := by
    rintro rfl
    obtain ⟨m, hm⟩ : ∃ m, Word.ofString "--" = .error m := ⟨_, rfl⟩
    rw [hm] at hname
    cases hname
  refine Arguments.ofWords_append hsep (by simpa using hne.symm) h
    (Word.ofStrings_cons hname hne rfl)
    fun p harguments hsound hleft => ⟨p.takeInput name, .input ?_ (.nil _), ?_, hleft⟩
  · rw [hsound, harguments, hnone]
    rfl
  · rw [Progress.takeInput, harguments]

end Abacus.Options
