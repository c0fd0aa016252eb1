import Vmwos.Userspace.Shell
import Vmwos.Library.Fields
import Mathlib.Data.List.Forall2

/-!
# What a command line means

A command line is a list of words, separated by spaces. The words before the first redirection
or `&` are the arguments. An operator at the start of a word redirects a stream to the rest of
the word, or to the next one. `create_argv` splits a line so when it meets its end behind a
space: a word that ends at the NUL has this NUL stepped over, and the loop reads on behind the
string. Nothing counts the arguments.
-/

set_option autoImplicit false

namespace Vmwos

open Library

namespace Shell

/-! ## Command lines -/

/-- An operator. -/
structure Operator where
  stream : Stream
  append : Bool
  deriving DecidableEq

/-- The characters of an operator. -/
def Operator.token (op : Operator) : CString :=
  op.stream.first ++ if op.append then [0x3e] else []

/-- The operators, a longer one first. -/
def operators : List Operator :=
  [⟨.stdout, true⟩, ⟨.stdout, false⟩, ⟨.stderr, true⟩, ⟨.stderr, false⟩, ⟨.stdin, false⟩]

/-- The operator a word begins with. -/
def findOperator (w : CString) : Option Operator :=
  operators.find? fun op => op.token.isPrefixOf w

/-- A redirection and its target. -/
structure Redirection where
  operator : Operator
  target : CString

/-- What ends a command line: `&`, the end of the words, or an operator without a target. -/
inductive Ending where
  | ampersand
  | noMore
  | missingTarget
  deriving DecidableEq

/-- A command line. -/
structure CommandLine where
  args : List CString
  redirections : List Redirection
  ending : Ending

/-- The command line of a list of words, behind a redirection or not, and where an operator is
still without its target. -/
def commandLine : (redirected : Bool) → Option Operator → List CString → CommandLine
  | _, none, [] => ⟨[], [], .noMore⟩
  | _, some _, [] => ⟨[], [], .missingTarget⟩
  | _, some op, w :: ws =>
      let line := commandLine true none ws
      { line with redirections := ⟨op, w⟩ :: line.redirections }
  | redirected, none, w :: ws =>
      if w.head? = some 0x26 then ⟨[], [], .ampersand⟩
      else
        match findOperator w with
        | none =>
            let line := commandLine redirected none ws
            if redirected then line else { line with args := w :: line.args }
        | some op =>
            let rest := w.drop op.token.length
            if rest = [] then commandLine true (some op) ws
            else
              let line := commandLine true none ws
              { line with redirections := ⟨op, rest⟩ :: line.redirections }

/-- The command line of a string. -/
def readLine (line : CString) : CommandLine := commandLine false none (fields 0x20 line)

/-- Where a stream is redirected to: the target of its last redirection. -/
def lastTarget (redirections : List Redirection) (stream : Stream) : Option CString :=
  ((redirections.filter fun r => r.operator.stream = stream).getLast?).map Redirection.target

/-- The streams whose operators are looked for behind an operator for a stream. -/
def Stream.later : Stream → List Stream
  | .stdout => [.stderr, .stdin]
  | .stderr => [.stdin]
  | .stdin => []

/-- A target that begins with an operator which is looked for behind the one it belongs to. -/
def Redirection.Stacked (r : Redirection) : Prop :=
  ∃ stream ∈ r.operator.stream.later, stream.first <+: r.target

/-- The line has its end behind a space, and no operator is without its target; or an `&` is met
before the end. -/
def EndsInTime (line : CString) : Prop :=
  (readLine line).ending = .ampersand ∨
    (readLine line).ending = .noMore ∧ ∀ c ∈ line.getLast?, c = 0x20

/-! ## What `create_argv` should do -/

/-- The string a pointer is to. -/
def stringAt (string : List UInt8) (p : Nat) : CString := (string.drop p).takeWhile (· ≠ 0)

/-- The arguments and the targets are those of a command line. -/
structure Splits (st : ArgvState) (line : CommandLine) : Prop where
  argc : st.argc = line.args.length
  arguments : ∃ (pointers : List Nat) (rest : List (Option Nat)), st.arguments = pointers.map some ++ none :: rest ∧
    pointers.map (stringAt st.string) = line.args
  redirect : ∀ stream, (st.redirect stream).map (stringAt st.string) =
    lastTarget line.redirections stream
  background : st.background = decide (line.ending = .ampersand)

/-- `create_argv` returns, with a negative value where there are too many arguments, and
otherwise with what the line says. -/
def SplitsLine (line : CString) : Prop :=
  ∀ arguments redirectType, arguments.length = maxArguments →
    ∃ st, createArgv (line ++ [0]) arguments redirectType = .ok st ∧
      ((st.argc : Int) < 0 ∧ maxArguments ≤ (readLine line).args.length ∨ Splits st (readLine line))

/-! ## Operators -/

section Operators

variable {op : Operator} {w r : CString}

theorem token_cons (op : Operator) :
    ∃ c cs, op.token = c :: cs ∧ c ≠ 0x20 ∧ c ≠ 0 ∧ c ≠ 0x26 := by
  rcases op with ⟨stream, append⟩
  cases stream <;> exact ⟨_, _, rfl, by decide, by decide, by decide⟩

theorem first_ne_nil (stream : Stream) : stream.first ≠ [] := by
  cases stream <;> exact List.cons_ne_nil _ _

/-- The characters of an operator are neither a space nor a NUL. -/
theorem mem_first {stream : Stream} {c : UInt8} (h : c ∈ stream.first) : c ≠ 0x20 ∧ c ≠ 0 := by
  cases stream with
  | stdout =>
      obtain rfl := List.mem_singleton.1 h
      exact ⟨by decide, by decide⟩
  | stderr =>
      rcases List.mem_cons.1 h with rfl | h
      · exact ⟨by decide, by decide⟩
      · obtain rfl := List.mem_singleton.1 h
        exact ⟨by decide, by decide⟩
  | stdin =>
      obtain rfl := List.mem_singleton.1 h
      exact ⟨by decide, by decide⟩

/-- An operator is found where the word begins with it, and not with its longer form. -/
theorem findOperator_cases (h : findOperator w = some op) :
    op.token <+: w ∧ (op.stream = .stdin → op.append = false) ∧
      (op.stream ≠ .stdin → op.append = false → ¬ (⟨op.stream, true⟩ : Operator).token <+: w) := by
  have hbegins {op : Operator} (h : op.token.isPrefixOf w = true) : op.token <+: w :=
    List.isPrefixOf_iff_prefix.1 h
  have hnot {op : Operator} (h : op.token.isPrefixOf w = false) : ¬ op.token <+: w := fun hp => by
    rw [List.isPrefixOf_iff_prefix.2 hp] at h
    cases h
  simp only [findOperator, operators, List.find?_cons] at h
  -- the operators in the order of the list: of each stream the longer one comes first
  split at h
  · rename_i h₁
    cases h
    exact ⟨hbegins h₁, fun h => (nomatch h), fun _ h => (nomatch h)⟩
  rename_i h₁
  split at h
  · rename_i h₂
    cases h
    exact ⟨hbegins h₂, fun h => (nomatch h), fun _ _ => hnot h₁⟩
  split at h
  · rename_i h₃
    cases h
    exact ⟨hbegins h₃, fun h => (nomatch h), fun _ h => (nomatch h)⟩
  rename_i h₃
  split at h
  · rename_i h₄
    cases h
    exact ⟨hbegins h₄, fun h => (nomatch h), fun _ _ => hnot h₃⟩
  split at h
  · rename_i h₅
    cases h
    exact ⟨hbegins h₅, fun _ => rfl, fun h => absurd rfl h⟩
  · cases h

/-- What an operator that is found says of its word. -/
theorem findOperator_eq_some (h : findOperator w = some op) :
    ∃ r, w = op.token ++ r ∧ (op.stream = .stdin → op.append = false) ∧
      (op.stream ≠ .stdin → op.append = false → ¬ [0x3e] <+: r) ∧
      ∀ stream, stream ≠ op.stream → ¬ stream.first <+: w := by
  obtain ⟨⟨r, rfl⟩, hstdin, hlong⟩ := findOperator_cases h
  refine ⟨r, rfl, hstdin, ?_, ?_⟩
  · intro hstream happend hbegins
    obtain ⟨t, rfl⟩ := hbegins
    apply hlong hstream happend
    refine ⟨t, ?_⟩
    rw [Operator.token, Operator.token, happend]
    simp
  · -- operators for different streams begin with different characters
    rcases op with ⟨s, append⟩
    intro stream hne hbegins
    obtain ⟨t, ht⟩ := hbegins
    rw [Operator.token, List.append_assoc] at ht
    cases s <;> cases stream <;>
      first | exact absurd rfl hne | exact absurd (List.cons.inj ht).1 (by decide)

theorem findOperator_eq_none (h : findOperator w = none) (stream : Stream) :
    ¬ stream.first <+: w := by
  intro hbegins
  rw [findOperator, List.find?_eq_none] at h
  have hmem : (⟨stream, false⟩ : Operator) ∈ operators := by
    cases stream <;> decide
  apply h _ hmem
  rw [List.isPrefixOf_iff_prefix, Operator.token]
  exact (List.append_nil stream.first).symm ▸ hbegins

end Operators

/-! ## The loops over characters -/

section Loops

variable {done rest w post : List UInt8} {c x : UInt8}

theorem charAt_append (done : List UInt8) (c : UInt8) (post : List UInt8) :
    charAt (done ++ c :: post) done.length = .ok c := by
  rw [charAt, List.getElem?_append_right (Nat.le_refl _), Nat.sub_self]
  rfl

theorem charAt_length (string : List UInt8) : charAt string string.length = .error .badAccess := by
  rw [charAt, List.getElem?_eq_none (Nat.le_refl _)]

/-- Spaces are passed over, up to another character. -/
theorem getNextArgLoop_eq (hc : c ≠ 0x20) (post : List UInt8) (k : Nat) :
    ∀ {fuel : Nat} {done : List UInt8}, k < fuel →
      getNextArgLoop (done ++ (List.replicate k 0x20 ++ c :: post)) fuel done.length =
        .ok (if c = 0 then none else some (done.length + k), done.length + k) := by
  induction k with
  | zero =>
      intro fuel done hfuel
      obtain ⟨fuel, rfl⟩ := Nat.exists_eq_succ_of_ne_zero (Nat.ne_of_gt hfuel)
      rw [List.replicate_zero, List.nil_append, getNextArgLoop, charAt_append, ok_bind]
      by_cases hzero : c = 0
      · simp [hzero]
      · simp [hzero, hc]
  | succ k ih =>
      intro fuel done hfuel
      obtain ⟨fuel, rfl⟩ := Nat.exists_eq_succ_of_ne_zero (Nat.ne_of_gt (Nat.zero_lt_of_lt hfuel))
      have hloop := @ih fuel (done ++ [0x20]) (Nat.lt_of_succ_lt_succ hfuel)
      rw [List.length_append, List.length_singleton, List.append_assoc, List.singleton_append,
        Nat.add_assoc, Nat.add_comm 1] at hloop
      rw [List.replicate_succ, List.cons_append, getNextArgLoop, charAt_append, ok_bind,
        if_neg (by decide), if_neg (by decide)]
      exact hloop

theorem getNextArg_eq (hc : c ≠ 0x20) (done : List UInt8) (k : Nat) (post : List UInt8) :
    getNextArg (done ++ (List.replicate k 0x20 ++ c :: post)) done.length =
      .ok (if c = 0 then none else some (done.length + k), done.length + k) := by
  apply getNextArgLoop_eq hc
  rw [List.length_append, List.length_append, List.length_replicate]
  omega

/-- Behind the string nothing can be read. -/
theorem getNextArg_length (string : List UInt8) :
    getNextArg string string.length = .error .badAccess := by
  rw [getNextArg, getNextArgLoop, charAt_length, error_bind]

theorem startsWith_eq (first : CString) : ∀ {done rest : List UInt8}, 0 ∉ first → 0 ∈ rest →
    startsWith (done ++ rest) first done.length = .ok (decide (first <+: rest)) := by
  induction first with
  | nil =>
      intro done rest _ _
      rw [startsWith, decide_eq_true List.nil_prefix]
  | cons c first ih =>
      intro done rest hfirst hrest
      rw [List.mem_cons, not_or] at hfirst
      obtain ⟨d, rest, rfl⟩ := List.exists_cons_of_ne_nil (List.ne_nil_of_mem hrest)
      rw [startsWith, charAt_append, ok_bind]
      by_cases hd : d = c
      · subst hd
        have hmem := (List.mem_cons.1 hrest).resolve_left hfirst.1
        have hloop := @ih (done ++ [d]) rest hfirst.2 hmem
        rw [List.length_append, List.length_singleton, List.append_assoc,
          List.singleton_append] at hloop
        rw [if_pos rfl, hloop]
        simp [List.cons_prefix_cons]
      · rw [if_neg hd, decide_eq_false]
        rw [List.cons_prefix_cons]
        exact fun h => hd h.1.symm

theorem wordEndLoop_eq (hx : x = 0x20 ∨ x = 0) (post w : List UInt8) :
    ∀ {fuel : Nat} {done : List UInt8}, (∀ c ∈ w, c ≠ 0x20 ∧ c ≠ 0) → w.length < fuel →
      wordEndLoop (done ++ (w ++ x :: post)) fuel done.length = .ok (done.length + w.length) := by
  induction w with
  | nil =>
      intro fuel done _ hfuel
      obtain ⟨fuel, rfl⟩ := Nat.exists_eq_succ_of_ne_zero (Nat.ne_of_gt hfuel)
      rw [List.nil_append, wordEndLoop, charAt_append, ok_bind, if_neg]
      · rfl
      · rintro ⟨hspace, hzero⟩
        exact hx.elim hspace hzero
  | cons c w ih =>
      intro fuel done hw hfuel
      obtain ⟨fuel, rfl⟩ := Nat.exists_eq_succ_of_ne_zero (Nat.ne_of_gt (Nat.zero_lt_of_lt hfuel))
      have hloop := @ih fuel (done ++ [c]) (fun d hd => hw d (List.mem_cons_of_mem c hd))
        (Nat.lt_of_succ_lt_succ hfuel)
      rw [List.length_append, List.length_singleton, List.append_assoc, List.singleton_append,
        Nat.add_assoc, Nat.add_comm 1] at hloop
      rw [List.cons_append, wordEndLoop, charAt_append, ok_bind, if_pos (hw c List.mem_cons_self)]
      exact hloop

/-- What has neither a space nor a NUL does not reach behind a word. -/
theorem prefix_word {first : CString} (hfirst : ∀ c ∈ first, c ≠ 0x20 ∧ c ≠ 0)
    (hx : x = 0x20 ∨ x = 0) (h : first <+: w ++ x :: post) : first <+: w := by
  rcases List.prefix_or_prefix_of_prefix h (List.prefix_append w (x :: post)) with hp | ⟨r, rfl⟩
  · exact hp
  · cases r with
    | nil => exact ⟨[], by rw [List.append_nil, List.append_nil]⟩
    | cons y r =>
        rw [List.prefix_append_right_inj, List.cons_prefix_cons] at h
        have hy := hfirst y (List.mem_append_right w List.mem_cons_self)
        rw [h.1] at hy
        exact absurd hx (not_or.2 hy)

theorem first_prefix_word {stream : Stream} (hx : x = 0x20 ∨ x = 0)
    (h : stream.first <+: w ++ x :: post) : stream.first <+: w :=
  prefix_word (fun _ => mem_first) hx h

end Loops

/-! ## One round -/

section Rounds

variable {st : ArgvState} {done rest w t post : List UInt8} {c x : UInt8} {op : Operator}
  {pointers arguments : List (Option Nat)} {y : Option Nat}

theorem setArgument_eq (hargs : st.arguments = pointers ++ y :: arguments)
    (hargc : st.argc = pointers.length) (a : Option Nat) :
    setArgument st a = .ok { st with arguments := pointers ++ a :: arguments } := by
  rw [setArgument, hargs, hargc, Buffer.store_cell]

theorem setArgument_full (h : st.arguments.length ≤ st.argc) (a : Option Nat) :
    setArgument st a = .error .badAccess := by
  have hnone : Buffer.store st.arguments st.argc [a] = none :=
    if_neg (Nat.not_le.2 (Nat.lt_succ_of_le h))
  rw [setArgument, hnone]

theorem redirectBlock_skip {stream : Stream} (hstring : st.string = done ++ rest)
    (hptr : st.ptr = done.length) (hnul : 0 ∈ rest) (h : ¬ stream.first <+: rest) :
    redirectBlock stream st = .ok st := by
  have hfirst : 0 ∉ stream.first := fun hmem => (mem_first hmem).2 rfl
  rw [redirectBlock, hstring, hptr, startsWith_eq _ hfirst hnul, decide_eq_false h, ok_bind]
  rfl

theorem takeRedirectType_eq (hstring : st.string = done ++ (op.token ++ rest)) (hne : rest ≠ [])
    (hptr : st.ptr = done.length + op.stream.first.length)
    (hstdin : op.stream = .stdin → op.append = false)
    (hlong : op.stream ≠ .stdin → op.append = false → ¬ [0x3e] <+: rest) :
    ∃ types, takeRedirectType op.stream st =
      .ok { st with ptr := done.length + op.token.length, redirectType := types } := by
  rw [takeRedirectType]
  by_cases hstream : op.stream = .stdin
  · refine ⟨st.redirectType, ?_⟩
    have hlen : op.token.length = op.stream.first.length := by
      rw [Operator.token, hstdin hstream]
      exact congrArg List.length (List.append_nil _)
    rw [if_pos hstream, hlen, ← hptr]
  rw [if_neg hstream]
  -- the character behind the stream decides, and there is one: the string ends in a 0
  have hat (d : UInt8) (rest' : List UInt8)
      (h : (if op.append then [0x3e] else []) ++ rest = d :: rest') :
      charAt st.string st.ptr = .ok d := by
    have hsplit : st.string = (done ++ op.stream.first) ++ d :: rest' := by
      rw [hstring, Operator.token, ← h, List.append_assoc, List.append_assoc]
    rw [hsplit, hptr, ← List.length_append]
    exact charAt_append _ _ _
  cases happend : op.append with
  | true =>
      refine ⟨Function.update st.redirectType op.stream .append, ?_⟩
      have hlen : op.token.length = op.stream.first.length + 1 := by
        rw [Operator.token, happend, List.length_append]
        rfl
      rw [hat 0x3e rest (by rw [happend]; rfl), ok_bind, if_pos rfl, hptr, hlen, Nat.add_assoc]
  | false =>
      obtain ⟨d, rest', rfl⟩ := List.exists_cons_of_ne_nil hne
      have hd : d ≠ 0x3e := by
        rintro rfl
        exact hlong hstream happend ⟨rest', rfl⟩
      have hlen : op.token.length = op.stream.first.length := by
        rw [Operator.token, happend]
        exact congrArg List.length (List.append_nil _)
      refine ⟨Function.update st.redirectType op.stream .overwrite, ?_⟩
      rw [hat d rest' (by rw [happend]; rfl), ok_bind, if_neg hd, hlen, ← hptr]

/-- An operator and the spaces behind it are taken, and the target is what comes next. -/
theorem redirectBlock_take {k : Nat}
    (hstring : st.string = done ++ (op.token ++ (List.replicate k 0x20 ++ c :: post)))
    (hptr : st.ptr = done.length) (hc : c ≠ 0x20) (hnul : 0 ∈ c :: post)
    (hstdin : op.stream = .stdin → op.append = false)
    (hlong : op.stream ≠ .stdin → op.append = false →
      ¬ [0x3e] <+: List.replicate k 0x20 ++ c :: post) :
    (∀ pointers y arguments, st.arguments = pointers ++ y :: arguments →
      st.argc = pointers.length → ∃ types, redirectBlock op.stream st = .ok { st with
        ptr := (done ++ op.token ++ List.replicate k 0x20).length
        redirect := Function.update st.redirect op.stream
          (if c = 0 then none else some (done ++ op.token ++ List.replicate k 0x20).length)
        redirectType := types, arguments := pointers ++ none :: arguments
        doneWithNormalArgs := true }) ∧
    (st.arguments.length ≤ st.argc → redirectBlock op.stream st = .error .badAccess) := by
  have hfirst : 0 ∉ op.stream.first := fun hmem => (mem_first hmem).2 rfl
  have hbegins : op.stream.first <+: op.token ++ (List.replicate k 0x20 ++ c :: post) := by
    rw [Operator.token, List.append_assoc]
    exact List.prefix_append _ _
  have hmem : 0 ∈ op.token ++ (List.replicate k 0x20 ++ c :: post) :=
    List.mem_append_right _ (List.mem_append_right _ hnul)
  obtain ⟨types, htype⟩ := @takeRedirectType_eq
    { st with ptr := done.length + op.stream.first.length } done
    (List.replicate k 0x20 ++ c :: post) op hstring
    (List.append_ne_nil_of_right_ne_nil _ (List.cons_ne_nil c post)) rfl hstdin hlong
  have hnext := getNextArg_eq hc (done ++ op.token) k post
  rw [List.append_assoc done, ← hstring, List.length_append, Nat.add_assoc] at hnext
  have hlen : (done ++ op.token ++ List.replicate k 0x20).length =
      done.length + (op.token.length + k) := by
    rw [List.length_append, List.length_append, List.length_replicate, Nat.add_assoc]
  have hstart : startsWith st.string op.stream.first st.ptr = .ok true := by
    rw [hstring, hptr, startsWith_eq _ hfirst hmem, decide_eq_true hbegins]
  rw [redirectBlock, hstart, ok_bind, if_pos rfl, hptr, htype, ok_bind, hnext, ok_bind, hlen]
  dsimp only
  constructor
  · intro pointers y arguments hargs hargc
    -- the arguments end here
    have hset := @setArgument_eq { st with
      ptr := done.length + (op.token.length + k)
      redirect := Function.update st.redirect op.stream
        (if c = 0 then none else some (done.length + (op.token.length + k)))
      redirectType := types } pointers arguments y hargs hargc none
    exact ⟨types, by rw [hset, ok_bind]⟩
  · intro hfull
    have hset := @setArgument_full { st with
      ptr := done.length + (op.token.length + k)
      redirect := Function.update st.redirect op.stream
        (if c = 0 then none else some (done.length + (op.token.length + k)))
      redirectType := types } hfull none
    rw [hset, error_bind]

theorem finishWord_eq (hstring : st.string = done ++ (w ++ x :: post)) (hptr : st.ptr = done.length)
    (hw : ∀ c ∈ w, c ≠ 0x20 ∧ c ≠ 0) (hx : x = 0x20 ∨ x = 0) (nextArg : Nat) :
    finishWord nextArg st =
      let st' := { st with
        string := done ++ (w ++ 0 :: post), ptr := (done ++ (w ++ [0])).length }
      if st.doneWithNormalArgs then .ok st'
      else setArgument st' (some nextArg) >>= fun st' => .ok { st' with argc := st'.argc + 1 } := by
  have hend := @wordEndLoop_eq x hx post w (st.string.length + 1) done hw (by
    rw [hstring, List.length_append, List.length_append]
    omega)
  have hstore := Buffer.store_cell (done ++ w) 0 x post
  rw [List.append_assoc, List.append_assoc, List.length_append] at hstore
  have hlen : (done ++ (w ++ [0])).length = done.length + w.length + 1 := by
    rw [List.length_append, List.length_append, List.length_singleton, Nat.add_assoc]
  rw [← hstring] at hend hstore
  rw [finishWord, hptr, hend, ok_bind, hstore, hlen]

theorem redirectBlocks_none (hstring : st.string = done ++ (w ++ x :: post))
    (hptr : st.ptr = done.length) (hx : x = 0x20 ∨ x = 0) (hnul : 0 ∈ x :: post)
    (hop : findOperator w = none) : redirectBlocks st = .ok st := by
  have hskip (stream : Stream) : redirectBlock stream st = .ok st :=
    redirectBlock_skip hstring hptr (List.mem_append_right w hnul) fun hbegins =>
      findOperator_eq_none hop stream (first_prefix_word hx hbegins)
  rw [redirectBlocks, hskip, ok_bind, hskip, ok_bind, hskip]

/-- Only the block of the operator that is there does anything. -/
theorem redirectBlocks_some {stream : Stream}
    (hbefore : ∀ s, stream ∈ s.later → redirectBlock s st = .ok st)
    (hafter : ∀ st', redirectBlock stream st = .ok st' →
      ∀ s ∈ stream.later, redirectBlock s st' = .ok st') :
    redirectBlocks st = redirectBlock stream st := by
  rw [redirectBlocks]
  cases stream with
  | stdout =>
      cases hblock : redirectBlock .stdout st with
      | error e => rfl
      | ok st' =>
          have hskip := hafter st' hblock
          rw [ok_bind, hskip .stderr (by decide), ok_bind, hskip .stdin (by decide)]
  | stderr =>
      rw [hbefore .stdout (by decide), ok_bind]
      cases hblock : redirectBlock .stderr st with
      | error e => rfl
      | ok st' => rw [ok_bind, hafter st' hblock .stdin (by decide)]
  | stdin => rw [hbefore .stdout (by decide), ok_bind, hbefore .stderr (by decide), ok_bind]

end Rounds

/-! ## Whole lines -/

/-- A pointer into the part of the string that has been read is to a word. -/
def PointsTo (done : List UInt8) (p : Nat) (w : CString) : Prop :=
  ∃ before behind, done = before ++ (w ++ 0 :: behind) ∧ before.length = p ∧ 0 ∉ w

theorem PointsTo.append {done : List UInt8} {p : Nat} {w : CString} (h : PointsTo done p w)
    (more : List UInt8) : PointsTo (done ++ more) p w := by
  obtain ⟨before, behind, rfl, hp, hw⟩ := h
  refine ⟨before, behind ++ more, ?_, hp, hw⟩
  rw [List.append_assoc, List.append_assoc, List.cons_append]

theorem PointsTo.stringAt {done : List UInt8} {p : Nat} {w : CString} (h : PointsTo done p w) :
    stringAt done p = w := by
  obtain ⟨before, behind, rfl, rfl, hw⟩ := h
  rw [Shell.stringAt, List.drop_left]
  exact takeWhile_terminated hw behind

/-- At the start of a round: what has been read of the string, what is left of it, and the
arguments and redirections found. -/
structure Reading (st : ArgvState) (done s : CString) (args : List CString)
    (reds : List Redirection) : Prop where
  string : st.string = done ++ (s ++ [0])
  ptr : st.ptr = done.length
  noNul : 0 ∉ s
  argc : st.argc = args.length
  length : st.arguments.length = maxArguments
  arguments : ∃ (pointers : List Nat) (rest : List (Option Nat)),
    st.arguments = pointers.map some ++ rest ∧ List.Forall₂ (PointsTo done) pointers args
  redirect : ∀ stream, Option.Rel (PointsTo done) (st.redirect stream) (lastTarget reds stream)
  doneWithNormalArgs : st.doneWithNormalArgs = !reds.isEmpty
  background : st.background = false

/-- What is expected of the loop, from the start of a round on, and of the NULL behind it. -/
def Meets (result : Except Stuck ArgvState) (args : List CString) (reds : List Redirection)
    (line : CommandLine) (s : CString) : Prop :=
  let inTime := args.length + line.args.length < maxArguments ∧
    (line.ending = .ampersand ∨ line.ending = .noMore ∧ ∀ c ∈ s.getLast?, c = 0x20)
  (inTime → ∃ st, result = .ok st ∧
    Splits st ⟨args ++ line.args, reds ++ line.redirections, line.ending⟩) ∧
  (¬ inTime → result = .error .badAccess)

section Lines

variable {st : ArgvState} {done s : CString} {args : List CString} {reds : List Redirection}

theorem Reading.pointers_map {pointers : List Nat}
    (h : List.Forall₂ (PointsTo done) pointers args) (more : List UInt8) :
    pointers.map (stringAt (done ++ more)) = args := by
  induction h with
  | nil => rfl
  | cons hp _ ih => rw [List.map_cons, ih, (hp.append more).stringAt]

/-- The redirections stay where they are while more of the string is read. -/
theorem Reading.redirect_append (h : Reading st done s args reds) (more : List UInt8)
    (stream : Stream) :
    Option.Rel (PointsTo (done ++ more)) (st.redirect stream) (lastTarget reds stream) := by
  have hrel := h.redirect stream
  generalize st.redirect stream = p at hrel ⊢
  generalize lastTarget reds stream = w at hrel ⊢
  cases hrel with
  | none => exact .none
  | some hp => exact .some (hp.append more)

/-- Where there is room, the elements of `arguments` are the pointers and one more. -/
theorem Reading.room (h : Reading st done s args reds) (hroom : args.length < maxArguments) :
    ∃ (pointers : List Nat) (y : Option Nat) (rest : List (Option Nat)),
      st.arguments = pointers.map some ++ y :: rest ∧ st.argc = (pointers.map some).length ∧
        List.Forall₂ (PointsTo done) pointers args := by
  obtain ⟨pointers, rest, harguments, hpointers⟩ := h.arguments
  have hlen := hpointers.length_eq
  have hne : rest ≠ [] := by
    rintro rfl
    have := h.length
    rw [harguments, List.append_nil, List.length_map, hlen] at this
    exact Nat.ne_of_lt hroom this
  obtain ⟨y, rest, rfl⟩ := List.exists_cons_of_ne_nil hne
  exact ⟨pointers, y, rest, harguments, by rw [h.argc, List.length_map, hlen], hpointers⟩

theorem Reading.full (h : Reading st done s args reds) (hroom : ¬ args.length < maxArguments) :
    st.arguments.length ≤ st.argc := by
  rw [h.length, h.argc]
  exact Nat.not_lt.1 hroom

/-- An element of `arguments` is set to NULL. -/
theorem Reading.setNull (h : Reading st done s args reds) {pointers : List Nat} {y : Option Nat}
    {rest : List (Option Nat)} (harguments : st.arguments = pointers.map some ++ y :: rest)
    (hpointers : List.Forall₂ (PointsTo done) pointers args) :
    Reading { st with arguments := pointers.map some ++ none :: rest } done s args reds := by
  refine ⟨h.string, h.ptr, h.noNul, h.argc, ?_, ⟨pointers, none :: rest, rfl, hpointers⟩,
    h.redirect, h.doneWithNormalArgs, h.background⟩
  rw [← h.length, harguments, List.length_append, List.length_append]
  rfl

/-- The end of `create_argv`, where the arguments fit. -/
theorem Reading.finish (h : Reading st done s args reds) (hroom : args.length < maxArguments)
    (st₁ : ArgvState) (ending : Ending) (hstring : st₁.string = st.string)
    (hargc : st₁.argc = st.argc) (hargs : st₁.arguments = st.arguments)
    (hredirect : st₁.redirect = st.redirect)
    (hbackground : st₁.background = decide (ending = .ampersand)) :
    ∃ st', setArgument st₁ none = .ok st' ∧ Splits st' ⟨args, reds, ending⟩ := by
  obtain ⟨pointers, y, rest, harguments, hargc', hpointers⟩ := h.room hroom
  refine ⟨_, setArgument_eq (hargs.trans harguments) (hargc.trans hargc') none, ?_⟩
  constructor
  · exact hargc.trans h.argc
  · refine ⟨pointers, rest, rfl, ?_⟩
    show pointers.map (stringAt st₁.string) = args
    rw [hstring, h.string]
    exact Reading.pointers_map hpointers _
  · intro stream
    show (st₁.redirect stream).map (stringAt st₁.string) = lastTarget reds stream
    have hrel := h.redirect stream
    rw [hredirect, hstring, h.string]
    generalize st.redirect stream = p at hrel
    generalize lastTarget reds stream = w at hrel
    cases hrel with
    | none => rfl
    | some hp => exact congrArg some (hp.append _).stringAt
  · exact hbackground

/-- At the end of the string the loop reads on. -/
theorem argvLoop_end (fuel : Nat) (hptr : st.ptr = st.string.length) :
    argvLoop (fuel + 1) st = .error .badAccess := by
  rw [argvLoop, argvRound, hptr, getNextArg_length, error_bind, error_bind]

/-- A round that finds no word. -/
theorem argvRound_none {k : Nat} (hstring : st.string = done ++ (List.replicate k 0x20 ++ [0]))
    (hptr : st.ptr = done.length) :
    argvRound st = .ok (false, { st with ptr := done.length + k }) := by
  have hnext := @getNextArg_eq 0 (by decide) done k []
  rw [← hstring] at hnext
  rw [argvRound, hptr, hnext, ok_bind]
  rfl

/-- A round that finds a word. -/
theorem argvRound_word {k : Nat} {c : UInt8} {rest : List UInt8}
    (hstring : st.string = done ++ (List.replicate k 0x20 ++ c :: rest))
    (hptr : st.ptr = done.length) (hspace : c ≠ 0x20) (hzero : c ≠ 0) :
    argvRound st =
      let st' := { st with ptr := (done ++ List.replicate k 0x20).length }
      if c = 0x26 then
        setArgument st' none >>= fun st => .ok (false, { st with background := true })
      else
        redirectBlocks st' >>= fun st =>
          finishWord (done ++ List.replicate k 0x20).length st >>= fun st => .ok (true, st) := by
  have hnext := getNextArg_eq hspace done k rest
  have hchar := charAt_append (done ++ List.replicate k 0x20) c rest
  have hlen : (done ++ List.replicate k (0x20 : UInt8)).length = done.length + k := by
    rw [List.length_append, List.length_replicate]
  rw [← hstring, if_neg hzero] at hnext
  rw [List.append_assoc, ← hstring, hlen] at hchar
  rw [argvRound, hptr, hnext, ok_bind, hlen]
  dsimp only
  rw [hchar, ok_bind]

theorem lastTarget_append (reds : List Redirection) (r : Redirection) (stream : Stream) :
    lastTarget (reds ++ [r]) stream =
      if stream = r.operator.stream then some r.target else lastTarget reds stream := by
  rw [lastTarget, List.filter_append]
  by_cases hstream : stream = r.operator.stream
  · have hkept : [r].filter (fun r => r.operator.stream = stream) = [r] := by
      simp [hstream]
    rw [if_pos hstream, hkept, List.getLast?_concat]
    rfl
  · have hdropped : [r].filter (fun r => r.operator.stream = stream) = [] := by
      simp [Ne.symm hstream]
    rw [if_neg hstream, hdropped, List.append_nil, lastTarget]

/-- The command line of an operator and what follows it. -/
theorem commandLine_operator {redirected : Bool} {op : Operator} {r t : CString}
    (hop : findOperator (op.token ++ r) = some op) (hr : 0x20 ∉ r)
    (ht : t = [] ∨ ∃ s, t = 0x20 :: s) :
    commandLine redirected none ((op.token ++ r) :: fields 0x20 t) =
      commandLine true (some op) (fields 0x20 (r ++ t)) := by
  have hamp : (op.token ++ r).head? ≠ some 0x26 := by
    rcases op with ⟨stream, append⟩
    cases stream <;> exact fun h => absurd (Option.some.inj h) (by decide)
  have hdrop : (op.token ++ r).drop op.token.length = r := List.drop_left
  rw [commandLine, if_neg hamp, hop]
  simp only [hdrop]
  by_cases hnil : r = []
  · rw [if_pos hnil, hnil, List.nil_append]
  · rw [if_neg hnil, fields_append hnil hr ht, commandLine]

/-- A word ends where the rest of a string begins. -/
def EndsWord (s t : CString) : Prop := ∃ before c, s = before ++ c :: t ∧ c ≠ 0x20

theorem endsWord_append (before : CString) {w : CString} (hne : w ≠ []) (hw : 0x20 ∉ w)
    (t : CString) : EndsWord (before ++ (w ++ t)) t := by
  refine ⟨before ++ w.dropLast, w.getLast hne, ?_, ?_⟩
  · conv_lhs => rw [← List.dropLast_append_getLast hne]
    simp only [List.append_assoc, List.singleton_append]
  · intro hspace
    exact hw (hspace ▸ List.getLast_mem hne)

/-- What stands behind a word. -/
theorem tail_cases {t : CString} (ht : t = [] ∨ ∃ s, t = 0x20 :: s) :
    ∃ x post, t ++ [0] = x :: post ∧ (x = 0x20 ∨ x = 0) ∧ 0 ∈ x :: post ∧ (t = [] → post = []) ∧
      ∀ s, t = 0x20 :: s → post = s ++ [0] := by
  rcases ht with rfl | ⟨s, rfl⟩
  · exact ⟨0, [], rfl, .inr rfl, List.mem_cons_self, fun _ => rfl, fun _ h => (nomatch h)⟩
  · refine ⟨0x20, s ++ [0], rfl, .inl rfl, ?_, fun h => (nomatch h), ?_⟩
    · exact List.mem_cons_of_mem _ (List.mem_append_right s List.mem_cons_self)
    · rintro _ ⟨⟩
      rfl

/-- A round is done with a word: what is left begins with the space behind it, or it was the end
of the string. -/
theorem meets_next {fuel : Nat} {st st' : ArgvState} {args args' : List CString}
    {reds reds' : List Redirection} {line : CommandLine} {s t : CString}
    (hround : argvRound st = .ok (true, st')) (hs : EndsWord s t)
    (ht : t = [] ∨ ∃ s', t = 0x20 :: s')
    (hend : t = [] → st'.ptr = st'.string.length)
    (hnext : ∀ s', t = 0x20 :: s' → Meets (argvLoop (fuel + 1) st' >>= fun st => setArgument st none)
      args' reds' (commandLine (!reds'.isEmpty) none (fields 0x20 s')) s')
    (hargs : args' ++ (commandLine (!reds'.isEmpty) none (fields 0x20 t)).args = args ++ line.args)
    (hreds : reds' ++ (commandLine (!reds'.isEmpty) none (fields 0x20 t)).redirections =
      reds ++ line.redirections)
    (hending : (commandLine (!reds'.isEmpty) none (fields 0x20 t)).ending = line.ending) :
    Meets (argvLoop (fuel + 2) st >>= fun st => setArgument st none) args reds line s := by
  obtain ⟨before, c, rfl, hc⟩ := hs
  have hloop : argvLoop (fuel + 2) st = argvLoop (fuel + 1) st' := by
    rw [argvLoop, hround, ok_bind]
    rfl
  rw [hloop]
  rcases ht with rfl | ⟨s', rfl⟩
  · -- the NUL has been stepped over
    have hnot : ¬ (line.ending = .ampersand ∨
        line.ending = .noMore ∧ ∀ d ∈ (before ++ [c]).getLast?, d = 0x20) := by
      rw [← hending, fields_nil, commandLine]
      rintro (h | ⟨-, h⟩)
      · cases h
      · exact hc (h c List.getLast?_concat)
    refine ⟨fun h => absurd h.2 hnot, fun _ => ?_⟩
    rw [argvLoop_end fuel (hend rfl), error_bind]
  · have hlast : (∀ d ∈ (before ++ c :: 0x20 :: s').getLast?, d = 0x20) ↔
        ∀ d ∈ s'.getLast?, d = 0x20 := by
      rw [List.getLast?_append, List.getLast?_cons_cons]
      cases s' with
      | nil => exact ⟨fun _ d hd => (nomatch hd), fun _ d hd => (Option.some.inj hd).symm⟩
      | cons d s' =>
          rw [List.getLast?_cons_cons]
          rw [List.getLast?_eq_some_getLast (List.cons_ne_nil d s')]
          rfl
    have hmeets := hnext s' rfl
    rw [fields_sep_cons] at hargs hreds hending
    have hlen := congrArg List.length hargs
    rw [List.length_append, List.length_append] at hlen
    simp only [Meets] at hmeets ⊢
    rw [hlen, hargs, hreds, hending, ← hlast] at hmeets
    exact hmeets

/-- The command line of what is left of a string. -/
def lineOf (reds : List Redirection) (s : CString) : CommandLine :=
  commandLine (!reds.isEmpty) none (fields 0x20 s)

/-- No target begins with another operator that is looked for. -/
def NoneStacked (line : CommandLine) : Prop := ∀ r ∈ line.redirections, ¬ r.Stacked

/-- The loop with some fuel does what is expected of it. -/
def LoopMeets (fuel : Nat) : Prop :=
  ∀ {st : ArgvState} {done s : CString} {args : List CString} {reds : List Redirection},
    s.length < fuel → Reading st done s args reds → NoneStacked (lineOf reds s) →
      Meets (argvLoop fuel st >>= fun st => setArgument st none) args reds (lineOf reds s) s

/-- No word is left. -/
theorem meets_none {fuel k : Nat} (h : Reading st done (List.replicate k 0x20) args reds) :
    Meets (argvLoop (fuel + 1) st >>= fun st => setArgument st none) args reds
      (lineOf reds (List.replicate k 0x20)) (List.replicate k 0x20) := by
  have hline : lineOf reds (List.replicate k 0x20) = ⟨[], [], .noMore⟩ := by
    have hfields := fields_replicate_append (0x20 : UInt8) k []
    rw [List.append_nil, fields_nil] at hfields
    rw [lineOf, hfields, commandLine]
  have hlast : ∀ c ∈ (List.replicate k (0x20 : UInt8)).getLast?, c = 0x20 := fun c hc =>
    List.eq_of_mem_replicate (List.mem_of_getLast? hc)
  rw [hline, argvLoop, argvRound_none h.string h.ptr, ok_bind]
  by_cases hroom : args.length < maxArguments
  · obtain ⟨st', hset, hsplits⟩ := h.finish hroom { st with ptr := done.length + k } .noMore
      rfl rfl rfl rfl h.background
    refine ⟨fun _ => ⟨st', hset, ?_⟩, fun hnot => absurd ⟨hroom, .inr ⟨rfl, hlast⟩⟩ hnot⟩
    rw [List.append_nil, List.append_nil]
    exact hsplits
  · exact ⟨fun hyes => absurd hyes.1 hroom,
      fun _ => @setArgument_full { st with ptr := done.length + k } (h.full hroom) none⟩

/-- An `&` ends the line. -/
theorem meets_ampersand {fuel k : Nat} {w t : CString}
    (h : Reading st done (List.replicate k 0x20 ++ (0x26 :: w ++ t)) args reds)
    (hw : 0x20 ∉ 0x26 :: w) (ht : t = [] ∨ ∃ s, t = 0x20 :: s) :
    Meets (argvLoop (fuel + 1) st >>= fun st => setArgument st none) args reds
      (lineOf reds (List.replicate k 0x20 ++ (0x26 :: w ++ t)))
      (List.replicate k 0x20 ++ (0x26 :: w ++ t)) := by
  have hline : lineOf reds (List.replicate k 0x20 ++ (0x26 :: w ++ t)) = ⟨[], [], .ampersand⟩ := by
    rw [lineOf, fields_replicate_append, fields_append (List.cons_ne_nil _ _) hw ht, commandLine,
      if_pos (show (0x26 :: w).head? = some 0x26 from rfl)]
  have hstring : st.string = done ++ (List.replicate k 0x20 ++ 0x26 :: (w ++ t ++ [0])) := by
    rw [h.string]
    simp only [List.append_assoc, List.cons_append]
  rw [hline, argvLoop, argvRound_word hstring h.ptr (by decide) (by decide)]
  dsimp only
  rw [if_pos rfl]
  by_cases hroom : args.length < maxArguments
  · -- the NULL is stored where the `&` is met, and once more behind the loop
    obtain ⟨pointers, y, rest, harguments, hargc, hpointers⟩ := h.room hroom
    have hset := @setArgument_eq { st with ptr := (done ++ List.replicate k 0x20).length } _ _ y
      harguments hargc none
    rw [hset, ok_bind, ok_bind]
    obtain ⟨st', hset', hsplits⟩ := (h.setNull harguments hpointers).finish hroom
      { st with
        ptr := (done ++ List.replicate k 0x20).length
        arguments := pointers.map some ++ none :: rest, background := true }
      .ampersand rfl rfl rfl rfl rfl
    refine ⟨fun _ => ⟨st', hset', ?_⟩, fun hnot => absurd ⟨hroom, .inl rfl⟩ hnot⟩
    rw [List.append_nil, List.append_nil]
    exact hsplits
  · refine ⟨fun hyes => absurd hyes.1 hroom, fun _ => ?_⟩
    have hset := @setArgument_full { st with ptr := (done ++ List.replicate k 0x20).length }
      (h.full hroom) none
    rw [hset]
    rfl

/-- The reading goes on behind a word that has been taken, with what has been found since. -/
theorem Reading.next {t post s' : CString} {args' : List CString} {reds' : List Redirection}
    {st' : ArgvState} {before w : CString} (h : Reading st done (before ++ (w ++ t)) args reds)
    (ht : t = 0x20 :: s') (hpost : post = s' ++ [0])
    (hstring : st'.string = done ++ before ++ (w ++ 0 :: post))
    (hptr : st'.ptr = (done ++ before ++ (w ++ [0])).length)
    (hargc : st'.argc = args'.length) (hlength : st'.arguments.length = maxArguments)
    (harguments : ∃ (pointers : List Nat) (rest : List (Option Nat)),
      st'.arguments = pointers.map some ++ rest ∧
        List.Forall₂ (PointsTo (done ++ before ++ (w ++ [0]))) pointers args')
    (hredirect : ∀ stream, Option.Rel (PointsTo (done ++ before ++ (w ++ [0])))
      (st'.redirect stream) (lastTarget reds' stream))
    (hdone : st'.doneWithNormalArgs = !reds'.isEmpty) (hbackground : st'.background = false) :
    Reading st' (done ++ before ++ (w ++ [0])) s' args' reds' := by
  refine ⟨?_, hptr, ?_, hargc, hlength, harguments, hredirect, hdone, hbackground⟩
  · rw [hstring, hpost]
    simp only [List.append_assoc, List.cons_append, List.nil_append]
  · have hnul := h.noNul
    rw [ht, List.mem_append, List.mem_append, List.mem_cons, not_or, not_or, not_or] at hnul
    exact hnul.2.2.2

/-- A word without a NUL is found behind a NUL that ends it. -/
theorem pointsTo_word (before : CString) {w : CString} (hw : 0 ∉ w) :
    PointsTo (before ++ (w ++ [0])) before.length w := ⟨before, [], rfl, rfl, hw⟩

/-- A word that is no operator. -/
theorem meets_plain {fuel k : Nat} {w t : CString}
    (h : Reading st done (List.replicate k 0x20 ++ (w ++ t)) args reds) (hne : w ≠ [])
    (hw : 0x20 ∉ w) (ht : t = [] ∨ ∃ s, t = 0x20 :: s) (hamp : w.head? ≠ some 0x26)
    (hop : findOperator w = none)
    (hstack : NoneStacked (lineOf reds (List.replicate k 0x20 ++ (w ++ t))))
    (hfuel : (List.replicate k 0x20 ++ (w ++ t)).length < fuel + 2) (ih : LoopMeets (fuel + 1)) :
    Meets (argvLoop (fuel + 2) st >>= fun st => setArgument st none) args reds
      (lineOf reds (List.replicate k 0x20 ++ (w ++ t))) (List.replicate k 0x20 ++ (w ++ t)) := by
  have hnul := h.noNul
  rw [List.mem_append, List.mem_append, not_or, not_or] at hnul
  have hchars : ∀ c ∈ w, c ≠ 0x20 ∧ c ≠ 0 := fun c hc =>
    ⟨fun h => hw (h ▸ hc), fun h => hnul.2.1 (h ▸ hc)⟩
  obtain ⟨x, post, hpost, hx, hmem, hend, hnext⟩ := tail_cases ht
  have hstring : st.string = done ++ List.replicate k 0x20 ++ (w ++ x :: post) := by
    rw [h.string, ← hpost]
    simp only [List.append_assoc]
  have hlen : t.length ≤ fuel + 1 := by
    have hpos := List.length_pos_of_ne_nil hne
    rw [List.length_append, List.length_append] at hfuel
    omega
  have hends := endsWord_append (List.replicate k 0x20) hne hw t
  -- the line is that of the rest, with the word where it is an argument
  have hline : lineOf reds (List.replicate k 0x20 ++ (w ++ t)) =
      let line := lineOf reds t
      if !reds.isEmpty then line else { line with args := w :: line.args } := by
    rw [lineOf, fields_replicate_append, fields_append hne hw ht, commandLine, if_neg hamp, hop]
    rfl
  obtain ⟨c, w', rfl⟩ := List.exists_cons_of_ne_nil hne
  have hround := @argvRound_word st done k c (w' ++ x :: post)
    (by rw [hstring, List.append_assoc, List.cons_append]) h.ptr (hchars c List.mem_cons_self).1
    (hchars c List.mem_cons_self).2
  have hc : c ≠ 0x26 := fun h => hamp (congrArg some h)
  have hblocks := @redirectBlocks_none { st with ptr := (done ++ List.replicate k 0x20).length }
    (done ++ List.replicate k 0x20) (c :: w') post x hstring rfl hx hmem hop
  have hword := @finishWord_eq { st with ptr := (done ++ List.replicate k 0x20).length }
    (done ++ List.replicate k 0x20) (c :: w') post x hstring rfl hchars hx
    (done ++ List.replicate k 0x20).length
  dsimp only at hround hword
  rw [if_neg hc, hblocks, ok_bind, hword] at hround
  rw [hline] at hstack ⊢
  have hpoint : PointsTo (done ++ List.replicate k 0x20 ++ (c :: w' ++ [0]))
      (done ++ List.replicate k 0x20).length (c :: w') := pointsTo_word _ hnul.2.1
  have hkeep (p : Nat) (u : CString) (hp : PointsTo done p u) :
      PointsTo (done ++ List.replicate k 0x20 ++ (c :: w' ++ [0])) p u :=
    (hp.append _).append _
  have hredirect (stream : Stream) :
      Option.Rel (PointsTo (done ++ List.replicate k 0x20 ++ (c :: w' ++ [0])))
        (st.redirect stream) (lastTarget reds stream) := by
    rw [List.append_assoc]
    exact h.redirect_append _ stream
  have hshort (s' : CString) (hs' : t = 0x20 :: s') : s'.length < fuel + 1 := by
    rw [hs', List.length_cons] at hlen
    exact hlen
  cases reds with
  | nil =>
      rw [if_neg (ne_true_of_eq_false h.doneWithNormalArgs)] at hround
      by_cases hroom : args.length < maxArguments
      · obtain ⟨pointers, y, rest, harguments, hargc, hpointers⟩ := h.room hroom
        have hset := @setArgument_eq { st with
          string := done ++ List.replicate k 0x20 ++ (c :: w' ++ 0 :: post)
          ptr := (done ++ List.replicate k 0x20 ++ (c :: w' ++ [0])).length } _ _ y harguments
          hargc (some (done ++ List.replicate k 0x20).length)
        have hround' := hround.trans (by rw [hset, ok_bind, ok_bind])
        refine @meets_next fuel st _ args (args ++ [c :: w']) [] [] _ _ t hround' hends ht ?_ ?_
          (List.append_assoc args _ _) rfl rfl
        · intro hnil
          rw [hend hnil]
        · intro s' hs'
          have hlines : lineOf [] s' = lineOf [] t := by
            rw [lineOf, lineOf, hs', fields_sep_cons]
          have hargc' : st.argc + 1 = (args ++ [c :: w']).length := by
            rw [List.length_append, List.length_singleton, h.argc]
          have hlength : (pointers.map some ++
              some (done ++ List.replicate k 0x20).length :: rest).length = maxArguments := by
            rw [← h.length, harguments]
            simp only [List.length_append, List.length_cons]
          have hpointers' : pointers.map some ++ some (done ++ List.replicate k 0x20).length :: rest =
              (pointers ++ [(done ++ List.replicate k 0x20).length]).map some ++ rest := by
            rw [List.map_append, List.append_assoc]
            rfl
          refine ih (hshort s' hs') (h.next hs' (hnext s' hs') rfl rfl hargc' hlength
            ⟨_, rest, hpointers', List.rel_append (hpointers.imp hkeep) (.cons hpoint .nil)⟩
            hredirect h.doneWithNormalArgs h.background) ?_
          rw [hlines]
          exact hstack
      · refine ⟨fun hyes => absurd hyes.1 ?_, fun _ => ?_⟩
        · dsimp only
          omega
        · have hset := @setArgument_full { st with
            string := done ++ List.replicate k 0x20 ++ (c :: w' ++ 0 :: post)
            ptr := (done ++ List.replicate k 0x20 ++ (c :: w' ++ [0])).length } (h.full hroom)
            (some (done ++ List.replicate k 0x20).length)
          have hround' := hround.trans (by rw [hset, error_bind, error_bind])
          rw [argvLoop, hround']
          rfl
  | cons r reds =>
      have hround' := hround.trans (by
        rw [if_pos (show st.doneWithNormalArgs = true from h.doneWithNormalArgs), ok_bind])
      refine @meets_next fuel st _ args args (r :: reds) (r :: reds) _ _ t hround' hends ht ?_ ?_ rfl
        rfl rfl
      · intro hnil
        rw [hend hnil]
      · intro s' hs'
        obtain ⟨pointers, rest, harguments, hpointers⟩ := h.arguments
        have hlines : lineOf (r :: reds) s' = lineOf (r :: reds) t := by
          rw [lineOf, lineOf, hs', fields_sep_cons]
        refine ih (hshort s' hs') (h.next hs' (hnext s' hs') rfl rfl h.argc h.length
          ⟨pointers, rest, harguments, hpointers.imp hkeep⟩ hredirect h.doneWithNormalArgs
          h.background) ?_
        rw [hlines]
        exact hstack

/-- What follows an operator: spaces and a word, or the end of the string. -/
theorem operand_cases (s : CString) : ∃ j u t, s = List.replicate j 0x20 ++ (u ++ t) ∧ 0x20 ∉ u ∧
    (t = [] ∨ ∃ s', t = 0x20 :: s') ∧ (u = [] → t = []) := by
  obtain ⟨j, rfl | ⟨u, t, rfl, hne, hu, ht⟩⟩ := fields_cases 0x20 s
  · exact ⟨j, [], [], (List.append_nil _).symm, List.not_mem_nil, .inl rfl, fun _ => rfl⟩
  · exact ⟨j, u, t, rfl, hu, ht, fun h => absurd h hne⟩

/-- A word that begins with an operator. -/
theorem meets_operator {fuel k : Nat} {op : Operator} {r t : CString}
    (h : Reading st done (List.replicate k 0x20 ++ (op.token ++ r ++ t)) args reds)
    (hop : findOperator (op.token ++ r) = some op) (hw : 0x20 ∉ op.token ++ r)
    (ht : t = [] ∨ ∃ s, t = 0x20 :: s)
    (hstack : NoneStacked (lineOf reds (List.replicate k 0x20 ++ (op.token ++ r ++ t))))
    (hfuel : (List.replicate k 0x20 ++ (op.token ++ r ++ t)).length < fuel + 2)
    (ih : LoopMeets (fuel + 1)) :
    Meets (argvLoop (fuel + 2) st >>= fun st => setArgument st none) args reds
      (lineOf reds (List.replicate k 0x20 ++ (op.token ++ r ++ t)))
      (List.replicate k 0x20 ++ (op.token ++ r ++ t)) := by
  obtain ⟨r', hr', hstdin, hlong, hother⟩ := findOperator_eq_some hop
  obtain rfl := List.append_cancel_left hr'
  have hr : 0x20 ∉ r := fun hmem => hw (List.mem_append_right _ hmem)
  obtain ⟨c, cs, htoken, hspace, hzero, hamp⟩ := token_cons op
  obtain ⟨j, u, t₂, hoperand, hu, ht₂, hmissing⟩ := operand_cases (r ++ t)
  obtain ⟨x, post, hpost, hx, hmem, -, -⟩ := tail_cases ht
  obtain ⟨x₂, post₂, hpost₂, hx₂, hmem₂, hend₂, hnext₂⟩ := tail_cases ht₂
  -- the line is that of what follows the operator
  have hfields : lineOf reds (List.replicate k 0x20 ++ (op.token ++ r ++ t)) =
      commandLine true (some op) (fields 0x20 (u ++ t₂)) := by
    rw [lineOf, fields_replicate_append, fields_append (by rw [htoken]; exact List.cons_ne_nil _ _)
      hw ht, commandLine_operator hop hr ht, hoperand, fields_replicate_append]
  have hwhole : List.replicate k 0x20 ++ (op.token ++ r ++ t) =
      List.replicate k 0x20 ++ op.token ++ List.replicate j 0x20 ++ (u ++ t₂) := by
    rw [List.append_assoc op.token, hoperand]
    simp only [List.append_assoc]
  have hnul : 0 ∉ u := fun hmem => h.noNul (by
    rw [hwhole]
    exact List.mem_append_right _ (List.mem_append_left _ hmem))
  have hchars : ∀ c ∈ u, c ≠ 0x20 ∧ c ≠ 0 := fun c hc =>
    ⟨fun h => hu (h ▸ hc), fun h => hnul (h ▸ hc)⟩
  -- the string, seen from the operator and from the target
  have hstring₁ : st.string = done ++ List.replicate k 0x20 ++ (op.token ++ r ++ x :: post) := by
    rw [h.string, ← hpost]
    simp only [List.append_assoc]
  have hstring₂ : st.string = done ++ List.replicate k 0x20 ++ op.token ++ List.replicate j 0x20 ++
      (u ++ x₂ :: post₂) := by
    rw [h.string, hwhole, ← hpost₂]
    simp only [List.append_assoc]
  obtain ⟨d, rest, hd, hdspace, hdzero⟩ : ∃ d rest, u ++ x₂ :: post₂ = d :: rest ∧ d ≠ 0x20 ∧
      (d = 0 ↔ u = []) := by
    cases u with
    | nil =>
        have hx₂ : x₂ = 0 := by
          rw [hmissing rfl] at hpost₂
          exact (List.cons.inj hpost₂).1.symm
        exact ⟨x₂, post₂, rfl, by rw [hx₂]; decide, fun _ => rfl, fun _ => hx₂⟩
    | cons d u =>
        have hne := hchars d List.mem_cons_self
        exact ⟨d, u ++ x₂ :: post₂, rfl, hne.1, fun h => absurd h hne.2, fun h => (nomatch h)⟩
  have hrest : r ++ x :: post = List.replicate j 0x20 ++ d :: rest := by
    rw [← hd, ← hpost, ← hpost₂, ← List.append_assoc, hoperand]
    simp only [List.append_assoc]
  have hround := @argvRound_word st done k c (cs ++ (r ++ x :: post))
    (by rw [hstring₁, htoken]; simp only [List.append_assoc, List.cons_append]) h.ptr hspace hzero
  have hstring₃ : st.string = done ++ List.replicate k 0x20 ++
      (op.token ++ (List.replicate j 0x20 ++ d :: rest)) := by
    rw [hstring₁, ← hrest, List.append_assoc op.token]
  have hmem₃ : 0 ∈ d :: rest := hd ▸ List.mem_append_right u hmem₂
  have hlong₃ : op.stream ≠ .stdin → op.append = false →
      ¬ [0x3e] <+: List.replicate j 0x20 ++ d :: rest := by
    intro hstream happend hbegins
    rw [← hrest] at hbegins
    exact hlong hstream happend (prefix_word (fun _ => @mem_first .stdout _) hx hbegins)
  have htake := @redirectBlock_take { st with ptr := (done ++ List.replicate k 0x20).length }
    (done ++ List.replicate k 0x20) rest d op j hstring₃ rfl hdspace hmem₃ hstdin hlong₃
  dsimp only at hround
  rw [if_neg hamp] at hround
  -- the operators that are looked for before this one are not there
  have hbefore (s : Stream) (hs : op.stream ∈ s.later) :
      redirectBlock s { st with ptr := (done ++ List.replicate k 0x20).length } =
        .ok { st with ptr := (done ++ List.replicate k 0x20).length } := by
    have hne : s ≠ op.stream := by
      rintro rfl
      revert hs
      cases op.stream <;> decide
    exact @redirectBlock_skip { st with ptr := (done ++ List.replicate k 0x20).length }
      (done ++ List.replicate k 0x20) (op.token ++ r ++ x :: post) s hstring₁ rfl
      (List.mem_append_right _ hmem) fun hbegins => hother s hne (first_prefix_word hx hbegins)
  by_cases hroom : args.length < maxArguments
  · obtain ⟨pointers, y, arguments, harguments, hargc, hpointers⟩ := h.room hroom
    obtain ⟨types, hblock⟩ := htake.1 (pointers.map some) y arguments harguments hargc
    -- nor is one at the beginning of the target
    have hafter (st' : ArgvState) (hst' : redirectBlock op.stream
        { st with ptr := (done ++ List.replicate k 0x20).length } = .ok st') (s : Stream)
        (hs : s ∈ op.stream.later) : redirectBlock s st' = .ok st' := by
      rw [hblock] at hst'
      cases hst'
      refine @redirectBlock_skip _ (done ++ List.replicate k 0x20 ++ op.token ++
        List.replicate j 0x20) (u ++ x₂ :: post₂) s hstring₂ rfl (List.mem_append_right u hmem₂)
        fun hbegins => ?_
      have hbegins := first_prefix_word hx₂ hbegins
      by_cases hu0 : u = []
      · rw [hu0, List.prefix_nil] at hbegins
        exact first_ne_nil s hbegins
      · refine hstack ⟨op, u⟩ ?_ ⟨s, hs, hbegins⟩
        rw [hfields, fields_append hu0 hu ht₂, commandLine]
        exact List.mem_cons_self
    have hword := @finishWord_eq { st with
        ptr := (done ++ List.replicate k 0x20 ++ op.token ++ List.replicate j 0x20).length
        redirect := Function.update st.redirect op.stream (if d = 0 then none else
          some (done ++ List.replicate k 0x20 ++ op.token ++ List.replicate j 0x20).length)
        redirectType := types, arguments := pointers.map some ++ none :: arguments
        doneWithNormalArgs := true }
      (done ++ List.replicate k 0x20 ++ op.token ++ List.replicate j 0x20) u post₂ x₂ hstring₂ rfl
      hchars hx₂ (done ++ List.replicate k 0x20).length
    dsimp only at hword
    rw [if_pos rfl] at hword
    rw [redirectBlocks_some hbefore hafter, hblock, ok_bind, hword, ok_bind] at hround
    by_cases hu0 : u = []
    · -- the NUL of the string has been taken for the end of the target
      have ht0 := hmissing hu0
      subst hu0 ht0
      have hline : lineOf reds (List.replicate k 0x20 ++ (op.token ++ r ++ t)) =
          ⟨[], [], .missingTarget⟩ := by
        rw [hfields, List.append_nil, fields_nil, commandLine]
      rw [hline]
      refine ⟨fun hyes => ?_, fun _ => ?_⟩
      · rcases hyes.2 with hyes | ⟨hyes, -⟩ <;> cases hyes
      · rw [argvLoop, hround, ok_bind]
        dsimp only
        rw [if_pos rfl, argvLoop_end fuel, error_bind]
        dsimp only
        rw [hend₂ rfl, List.nil_append]
    · have hline : lineOf reds (List.replicate k 0x20 ++ (op.token ++ r ++ t)) =
          let line := lineOf (reds ++ [⟨op, u⟩]) t₂
          { line with redirections := ⟨op, u⟩ :: line.redirections } := by
        have hsome : (!(reds ++ [⟨op, u⟩] : List Redirection).isEmpty) = true := by
          cases reds <;> rfl
        rw [hfields, fields_append hu0 hu ht₂, commandLine, lineOf, hsome]
      rw [hline] at hstack ⊢
      have hends : EndsWord (List.replicate k 0x20 ++ (op.token ++ r ++ t)) t₂ := by
        rw [hwhole]
        exact endsWord_append _ hu0 hu t₂
      refine @meets_next fuel st _ args args reds (reds ++ [⟨op, u⟩]) _ _ t₂ hround hends ht₂ ?_ ?_
        rfl (List.append_assoc reds _ _) rfl
      · intro hnil
        rw [hend₂ hnil]
      · intro s' hs'
        have hassoc : done ++ List.replicate k 0x20 ++ op.token ++ List.replicate j 0x20 =
            done ++ (List.replicate k 0x20 ++ op.token ++ List.replicate j 0x20) := by
          simp only [List.append_assoc]
        have hd0 : ¬ d = 0 := fun h => hu0 (hdzero.1 h)
        have hlines : lineOf (reds ++ [⟨op, u⟩]) s' = lineOf (reds ++ [⟨op, u⟩]) t₂ := by
          rw [lineOf, lineOf, hs', fields_sep_cons]
        have hshort : s'.length < fuel + 1 := by
          have hpos := List.length_pos_of_ne_nil hu0
          rw [hwhole, List.length_append, hs', @List.length_append _ u, List.length_cons] at hfuel
          omega
        have hlength : (pointers.map some ++ none :: arguments).length = maxArguments := by
          rw [← h.length, harguments]
          simp only [List.length_append, List.length_cons]
        have hkeep (p : Nat) (v : CString) (hp : PointsTo done p v) :
            PointsTo (done ++ (List.replicate k 0x20 ++ op.token ++ List.replicate j 0x20) ++
              (u ++ [0])) p v :=
          (hp.append _).append _
        rw [hwhole] at h
        refine ih hshort (h.next hs' (hnext₂ s' hs') ?_ ?_ h.argc hlength
          ⟨pointers, none :: arguments, rfl, hpointers.imp hkeep⟩ ?_ ?_ h.background) ?_
        · exact congrArg (· ++ (u ++ 0 :: post₂)) hassoc
        · exact congrArg (fun before => (before ++ (u ++ [0])).length) hassoc
        · intro stream
          dsimp only
          rw [lastTarget_append, if_neg hd0, hassoc]
          by_cases hstream : stream = op.stream
          · rw [if_pos hstream, hstream, Function.update_self]
            exact .some (pointsTo_word _ hnul)
          · rw [if_neg hstream, Function.update_of_ne hstream, List.append_assoc done]
            exact h.redirect_append _ stream
        · cases reds <;> rfl
        · rw [hlines]
          exact fun r hr => hstack r (List.mem_cons_of_mem _ hr)
  · -- there is no room for the NULL behind the arguments
    have hblock := htake.2 (h.full hroom)
    have hblocks := redirectBlocks_some hbefore fun st' h => by
      rw [hblock] at h
      cases h
    rw [hblocks, hblock, error_bind] at hround
    refine ⟨fun hyes => absurd hyes.1 ?_, fun _ => ?_⟩
    · omega
    · rw [argvLoop, hround]
      rfl

/-- The loop does what is expected of it, word after word. -/
theorem argvLoop_meets (fuel : Nat) : LoopMeets fuel := by
  induction fuel with
  | zero => exact fun h => absurd h (Nat.not_lt_zero _)
  | succ fuel ih =>
      intro st done s args reds hfuel h hstack
      obtain ⟨k, rfl | ⟨w, t, rfl, hne, hw, ht⟩⟩ := fields_cases 0x20 s
      · exact meets_none h
      · have hpos := List.length_pos_of_ne_nil hne
        -- a word leaves fuel for one more round
        obtain ⟨fuel, rfl⟩ : ∃ n, fuel = n + 1 := by
          apply Nat.exists_eq_succ_of_ne_zero
          rw [List.length_append, List.length_append] at hfuel
          omega
        by_cases hamp : w.head? = some 0x26
        · obtain ⟨c, w, rfl⟩ := List.exists_cons_of_ne_nil hne
          obtain rfl := Option.some.inj hamp
          exact meets_ampersand h hw ht
        · cases hop : findOperator w with
          | none => exact meets_plain h hne hw ht hamp hop hstack hfuel ih
          | some op =>
              obtain ⟨r, rfl, -⟩ := findOperator_eq_some hop
              exact meets_operator h hop hw ht hstack hfuel ih

end Lines

/-- `create_argv`, where no target begins with an operator. -/
theorem createArgv_meets {line : CString} (hnul : 0 ∉ line) (hstack : NoneStacked (readLine line))
    {arguments : List (Option Nat)} (hlength : arguments.length = maxArguments)
    (redirectType : Stream → RedirectType) :
    Meets (createArgv (line ++ [0]) arguments redirectType) [] [] (readLine line) line := by
  have hstart : Reading
      { string := line ++ [0], ptr := 0, argc := 0, arguments := arguments, redirect := fun _ => none
        redirectType := redirectType, background := false, doneWithNormalArgs := false }
      [] line [] [] :=
    ⟨rfl, rfl, hnul, rfl, hlength, ⟨[], arguments, rfl, .nil⟩, fun _ => .none, rfl, rfl⟩
  have hfuel : line.length < (line ++ [0]).length + 1 := by
    rw [List.length_append]
    exact Nat.lt_succ_of_le (Nat.le_add_right _ _)
  exact argvLoop_meets _ hfuel hstart hstack

/-- A line is split right if no target begins with an operator, its arguments fit with the NULL
behind them and its end is seen. Without such targets, it is not split right otherwise. -/
theorem splitsLine_iff (line : CString) (hnul : 0 ∉ line) :
    (NoneStacked (readLine line) ∧ (readLine line).args.length < maxArguments ∧ EndsInTime line →
      SplitsLine line) ∧
    (NoneStacked (readLine line) → SplitsLine line →
      (readLine line).args.length < maxArguments ∧ EndsInTime line) := by
  constructor
  · rintro ⟨hstack, hyes⟩ arguments redirectType hlength
    have hmeets := createArgv_meets hnul hstack hlength redirectType
    obtain ⟨st, hst, hsplits⟩ := hmeets.1 (by rwa [List.length_nil, Nat.zero_add])
    exact ⟨st, hst, .inr hsplits⟩
  · intro hstack hsplits
    have hlength : (List.replicate maxArguments (none : Option Nat)).length = maxArguments :=
      List.length_replicate
    have hmeets := createArgv_meets hnul hstack hlength fun _ => .overwrite
    obtain ⟨st, hst, -⟩ := hsplits _ (fun _ => .overwrite) hlength
    by_contra hnot
    rw [hmeets.2 (by rwa [List.length_nil, Nat.zero_add])] at hst
    cases hst

/-- `ls 2>e &` is split. -/
theorem splitsLine_iff_background :
    SplitsLine [0x6c, 0x73, 0x20, 0x32, 0x3e, 0x65, 0x20, 0x26] := by
  refine (splitsLine_iff _ (by decide)).1 ⟨fun r hr => ?_, by decide, .inl rfl⟩
  obtain rfl : r = ⟨⟨.stderr, false⟩, [0x65]⟩ := List.mem_singleton.1 hr
  rintro ⟨stream, hstream, hbegins⟩
  obtain rfl := List.mem_singleton.1 hstream
  revert hbegins
  decide

/-- The NUL behind `ls` is stepped over. -/
theorem not_splitsLine : ¬ ∀ line : CString, 0 ∉ line → SplitsLine line := by
  intro hall
  obtain ⟨st, hst, -⟩ := hall [0x6c, 0x73] (by decide) (List.replicate maxArguments none)
    (fun _ => .overwrite) List.length_replicate
  have herror : createArgv ([0x6c, 0x73] ++ [0]) (List.replicate maxArguments none)
      (fun _ => .overwrite) = .error .badAccess := rfl
  rw [herror] at hst
  cases hst

end Shell

end Vmwos
