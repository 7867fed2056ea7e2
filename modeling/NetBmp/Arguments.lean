import NetBmp.MonitorErrors
import NetBmp.Tokens

/-!
# Argument splitting in memory

`gdb_get_args` works on the string in place: `strtok_r` ends each token with a NUL, and the
arguments are offsets into the buffer of the string. What it leaves in memory are the arguments
of the string, as the lists in the commands have them.
-/

namespace NetBmp
namespace Arguments

open Hex Halting Tokens MonitorErrors

/-- The number of delimiters from an offset on. -/
def strspn (buffer : List UInt8) (offset : ℕ) : ℕ :=
  ((buffer.drop offset).takeWhile isDelimiter).length

/-- The number of characters from an offset up to a delimiter or the NUL. -/
def strcspn (buffer : List UInt8) (offset : ℕ) : ℕ :=
  ((buffer.drop offset).takeWhile fun c => c ≠ 0 && !isDelimiter c).length

/-- What `strtok_r` returns, the buffer and the state of the tokenizer. -/
structure Tokenizer where
  token : Option ℕ
  buffer : List UInt8
  state : ℕ

/-- `strtok_r`: the offset of the next token, which is ended with a NUL. -/
def strtokR (buffer : List UInt8) (state : ℕ) : Tokenizer :=
  let token := state + strspn buffer state
  if buffer.getD token 0 = 0 then ⟨none, buffer, token⟩
  else
    let stop := token + strcspn buffer token
    if buffer.getD stop 0 = 0 then ⟨some token, buffer, stop⟩
    else ⟨some token, buffer.set stop 0, stop + 1⟩

/-- What `gdb_get_args` leaves behind. The array of arguments has no end here, so that a write
beyond the array of the caller would be seen. -/
structure Extracted where
  result : GdbResult
  argc : ℕ
  argv : ℕ → ℕ
  buffer : List UInt8

/-- The loop of `gdb_get_args`. -/
def gdbGetArgsLoop (tokenizer : Tokenizer) (argc : ℕ) (argv : ℕ → ℕ) : Extracted :=
  match tokenizer.token with
  | none => ⟨.ok, argc, argv, tokenizer.buffer⟩
  | some token =>
    if argc ≥ gdbMaxArgCount then ⟨.excessArguments, argc, argv, tokenizer.buffer⟩
    else
      gdbGetArgsLoop (strtokR tokenizer.buffer tokenizer.state) (argc + 1)
        (Function.update argv argc token)
termination_by gdbMaxArgCount - argc

/-- Extract arguments from the string at the front of a buffer. -/
def gdbGetArgs (buffer : List UInt8) (argv : ℕ → ℕ) : Extracted :=
  gdbGetArgsLoop (strtokR buffer 0) 0 argv

theorem arguments_eq_tokens (text : List UInt8) : arguments text = tokens isDelimiter text := by
  rw [arguments, tokens]
  congr 1
  funext token
  cases token <;> rfl

theorem getD_append_of_eq {xs ys : List UInt8} {n : ℕ} (h : n = xs.length) :
    (xs ++ ys).getD n 0 = ys.headD 0 := by
  subst h
  rw [List.getD_append_right _ _ _ _ le_rfl, Nat.sub_self]
  cases ys <;> rfl

theorem strspn_gap {gap : List UInt8} (h : ∀ x ∈ gap, isDelimiter x = true)
    (front : List UInt8) {rest : List UInt8} (hrest : ∀ x ∈ rest.head?, isDelimiter x = false) :
    strspn (front ++ gap ++ rest) front.length = gap.length := by
  rw [strspn, List.append_assoc, List.drop_left, takeWhile_append_stop h hrest]

theorem strcspn_token {token : List UInt8} (h : ∀ x ∈ token, isDelimiter x = false)
    (hnul : 0 ∉ token) (front : List UInt8) {rest : List UInt8}
    (hrest : ∀ x ∈ rest.head?, x = 0 ∨ isDelimiter x = true) :
    strcspn (front ++ token ++ rest) front.length = token.length := by
  rw [strcspn, List.append_assoc, List.drop_left, takeWhile_append_stop]
  · intro x hx
    have hne : x ≠ 0 := fun he => hnul (he ▸ hx)
    simp [hne, h x hx]
  · intro x hx
    rcases hrest x hx with rfl | hdelimiter
    · rfl
    · simp [hdelimiter]

theorem strtokR_blank {gap : List UInt8} (h : ∀ x ∈ gap, isDelimiter x = true)
    (front rest : List UInt8) :
    strtokR (front ++ gap ++ 0 :: rest) front.length =
      ⟨none, front ++ gap ++ 0 :: rest, front.length + gap.length⟩ := by
  have hspan : strspn (front ++ gap ++ 0 :: rest) front.length = gap.length :=
    strspn_gap h front (by simp; decide)
  have hnul : (front ++ gap ++ 0 :: rest).getD (front.length + gap.length) 0 = 0 :=
    getD_append_of_eq (by simp)
  simp only [strtokR, hspan, hnul, if_true]

/-- What stands before the state of the tokenizer when it has ended a token: with the NUL that it
has written in place of a delimiter, or without the one that ends the string. -/
def Ended (front gap token tail front' : List UInt8) : Prop :=
  front' = front ++ gap ++ token ∧ tail = [] ∨
    front' = front ++ gap ++ token ++ [0] ∧ tail.length = tail.tail.length + 1

theorem Ended.body {front gap token tail front' : List UInt8} (h : Ended front gap token tail front')
    {body : List UInt8} (hbody : body.length = tail.tail.length) (rest : List UInt8) :
    ∃ body', front' ++ body ++ 0 :: rest = front ++ body' ++ 0 :: rest ∧
      body'.length = (gap ++ token ++ tail).length := by
  rcases h with ⟨rfl, rfl⟩ | ⟨rfl, htail⟩
  · exact ⟨gap ++ token ++ body, by simp, by simpa using hbody⟩
  · refine ⟨gap ++ token ++ [0] ++ body, by simp, ?_⟩
    simp only [List.length_append, List.length_singleton]
    omega

/-- Whatever is done to the rest of the text, the token stays in memory, with a NUL behind it. -/
theorem Ended.token {front gap token tail front' : List UInt8} (h : Ended front gap token tail front')
    {body : List UInt8} (hbody : body.length = tail.tail.length) (rest : List UInt8) :
    ∃ behind, (front' ++ body ++ 0 :: rest).drop (front.length + gap.length) =
      token ++ 0 :: behind := by
  rw [← List.length_append]
  rcases h with ⟨rfl, rfl⟩ | ⟨rfl, -⟩
  · obtain rfl : body = [] := List.length_eq_zero_iff.mp hbody
    exact ⟨rest, by simp⟩
  · exact ⟨body ++ 0 :: rest, by simp⟩

theorem strtokR_token {gap token tail : List UInt8} (h : FirstToken isDelimiter gap token tail)
    (hnul : 0 ∉ gap ++ token ++ tail) (front rest : List UInt8) :
    ∃ front', strtokR (front ++ (gap ++ token ++ tail) ++ 0 :: rest) front.length =
        ⟨some (front.length + gap.length), front' ++ tail.tail ++ 0 :: rest, front'.length⟩ ∧
      Ended front gap token tail front' := by
  have hbuffer : front ++ (gap ++ token ++ tail) ++ 0 :: rest =
      front ++ gap ++ token ++ (tail ++ 0 :: rest) := by simp
  simp only [List.mem_append, not_or] at hnul
  have hspan : strspn (front ++ gap ++ token ++ (tail ++ 0 :: rest)) front.length = gap.length := by
    rw [List.append_assoc]
    exact strspn_gap h.blank front (h.head_token _)
  have hstart : (front ++ gap ++ token ++ (tail ++ 0 :: rest)).getD (front ++ gap).length 0 ≠ 0 := by
    rw [List.append_assoc, getD_append_of_eq rfl]
    cases htoken : token with
    | nil => exact absurd htoken h.ne_nil
    | cons c cs => exact fun hc : c = 0 => hnul.1.2 (by simp [htoken, hc])
  have hstop : strcspn (front ++ gap ++ token ++ (tail ++ 0 :: rest)) (front ++ gap).length =
      token.length := by
    refine strcspn_token h.plain hnul.1.2 (front ++ gap) fun x hx => ?_
    cases htail : tail with
    | nil => exact Or.inl (by simpa [htail, eq_comm] using hx)
    | cons d more => exact Or.inr (h.stop x (by simpa [htail] using hx))
  rw [hbuffer]
  simp only [strtokR, hspan, ← List.length_append, if_neg hstart, hstop]
  rw [getD_append_of_eq rfl]
  cases tail with
  | nil => exact ⟨front ++ gap ++ token, by simp, Or.inl ⟨rfl, rfl⟩⟩
  | cons d more =>
    have hd : (d :: more ++ 0 :: rest).headD 0 ≠ 0 := fun he : d = 0 =>
      hnul.2 (he ▸ List.mem_cons_self)
    refine ⟨front ++ gap ++ token ++ [0], ?_, Or.inr ⟨rfl, rfl⟩⟩
    rw [if_neg hd, List.set_append_right _ _ le_rfl, Nat.sub_self]
    simp [Nat.add_assoc]

/-- What the loop leaves behind when it goes on with a text, `argc` arguments taken before. -/
structure Extracts (front text rest : List UInt8) (argc : ℕ) (argv : ℕ → ℕ) (r : Extracted) :
    Prop where
  buffer_eq : ∃ body, r.buffer = front ++ body ++ 0 :: rest ∧ body.length = text.length
  argc_eq : r.argc = argc + min (arguments text).length (gdbMaxArgCount - argc)
  argv_others : ∀ i, i < argc ∨ r.argc ≤ i → r.argv i = argv i
  argv_token : ∀ j token, argc + j < r.argc → (arguments text)[j]? = some token →
    ∃ behind, r.buffer.drop (r.argv (argc + j)) = token ++ 0 :: behind
  result_iff : r.result = .excessArguments ↔ gdbMaxArgCount - argc < (arguments text).length

theorem arguments_firstToken {gap token tail : List UInt8}
    (h : FirstToken isDelimiter gap token tail) :
    arguments (gap ++ token ++ tail) = token :: arguments tail.tail := by
  rw [arguments_eq_tokens, h.tokens_eq, arguments_eq_tokens]

theorem arguments_blank {gap : List UInt8} (h : ∀ x ∈ gap, isDelimiter x = true) :
    arguments gap = [] := by
  rw [arguments_eq_tokens, tokens_of_blank h]

theorem Extracts.cons {gap token tail front front' rest : List UInt8} {argc : ℕ} {argv : ℕ → ℕ}
    {r : Extracted} (h : FirstToken isDelimiter gap token tail)
    (hended : Ended front gap token tail front') (hroom : argc < gdbMaxArgCount)
    (hr : Extracts front' tail.tail rest (argc + 1)
      (Function.update argv argc (front.length + gap.length)) r) :
    Extracts front (gap ++ token ++ tail) rest argc argv r := by
  have harguments := arguments_firstToken h
  obtain ⟨body, hbuffer, hlength⟩ := hr.buffer_eq
  have hargc := hr.argc_eq
  refine ⟨?_, ?_, fun i hi => ?_, fun j t hj ht => ?_, ?_⟩
  · rw [hbuffer]
    exact hended.body hlength rest
  · rw [harguments, List.length_cons]
    omega
  · rw [hr.argv_others i (by omega), Function.update_of_ne (by omega)]
  · cases j with
    | zero =>
      have hkeep := hr.argv_others argc (Or.inl (Nat.lt_succ_self argc))
      rw [harguments] at ht
      obtain rfl : token = t := by simpa using ht
      rw [Nat.add_zero, hkeep, Function.update_self, hbuffer]
      exact hended.token hlength rest
    | succ j =>
      rw [harguments, List.getElem?_cons_succ] at ht
      rw [← Nat.succ_add_eq_add_succ] at hj ⊢
      exact hr.argv_token j t hj ht
  · rw [hr.result_iff, harguments, List.length_cons]
    omega

theorem gdbGetArgsLoop_extracts (text front rest : List UInt8) (hnul : 0 ∉ text) {argc : ℕ}
    (hargc : argc ≤ gdbMaxArgCount) (argv : ℕ → ℕ) :
    Extracts front text rest argc argv
      (gdbGetArgsLoop (strtokR (front ++ text ++ 0 :: rest) front.length) argc argv) := by
  induction text using tokens_induction isDelimiter generalizing front argc argv with
  | blank gap hgap =>
    have hnone := arguments_blank hgap
    rw [strtokR_blank hgap, gdbGetArgsLoop]
    exact ⟨⟨gap, rfl, rfl⟩, by simp [hnone], fun _ _ => rfl, by simp [hnone], by simp [hnone]⟩
  | token gap token tail h ih =>
    obtain ⟨front', hstrtok, hended⟩ := strtokR_token h hnul front rest
    rw [hstrtok, gdbGetArgsLoop]
    by_cases hfull : argc ≥ gdbMaxArgCount
    · -- the token is found and ended, but there is no room for it
      have hsome := arguments_firstToken h
      have hroom : gdbMaxArgCount - argc = 0 := by omega
      simp only [if_pos hfull]
      refine ⟨hended.body rfl rest, by simp [hroom], fun _ _ => rfl, fun j t hj => ?_, ?_⟩
      · exact absurd hj (by simp)
      · rw [hsome, hroom, List.length_cons]
        simp
    · simp only [if_neg hfull]
      refine Extracts.cons h hended (by omega) (ih front' ?_ (by omega) _)
      exact fun hmem => hnul (List.mem_append_right _ (List.mem_of_mem_tail hmem))

theorem gdbGetArgs_extracts (s : CString) (rest : List UInt8) (argv : ℕ → ℕ) :
    Extracts [] s.chars rest 0 argv (gdbGetArgs (s.chars ++ 0 :: rest) argv) :=
  gdbGetArgsLoop_extracts s.chars [] rest s.no_nul (Nat.zero_le _) argv

theorem Extracts.argc_of_start {text rest : List UInt8} {argv : ℕ → ℕ} {r : Extracted}
    (h : Extracts [] text rest 0 argv r) :
    r.argc = min (arguments text).length gdbMaxArgCount := by
  rw [h.argc_eq, Nat.zero_add, Nat.sub_zero]

theorem Extracts.token_of_start {text rest : List UInt8} {argv : ℕ → ℕ} {r : Extracted}
    (h : Extracts [] text rest 0 argv r) {i : ℕ} (hi : i < r.argc) :
    ∃ token behind, (arguments text)[i]? = some token ∧
      r.buffer.drop (r.argv i) = token ++ 0 :: behind := by
  have hargc := h.argc_of_start
  have htoken := List.getElem?_eq_getElem (l := arguments text) (i := i) (by omega)
  obtain ⟨behind, hbehind⟩ := h.argv_token i _ (by rwa [Nat.zero_add]) htoken
  rw [Nat.zero_add] at hbehind
  exact ⟨_, behind, htoken, hbehind⟩

/-- A string is split into its arguments. They are stored in order, and nothing is stored beyond
the end of the array, however many there are. -/
theorem gdbGetArgs_splits (s : CString) (rest : List UInt8) (argv : ℕ → ℕ) :
    let T := arguments s.chars
    let r := gdbGetArgs (s.chars ++ 0 :: rest) argv
    r.argc = min T.length gdbMaxArgCount ∧
      (∀ i < r.argc, ∃ token behind, T[i]? = some token ∧
        r.buffer.drop (r.argv i) = token ++ 0 :: behind) ∧
      (∀ i, gdbMaxArgCount ≤ i → r.argv i = argv i) ∧
      (r.result = .excessArguments ↔ gdbMaxArgCount < T.length) := by
  intro T r
  have h : Extracts [] s.chars rest 0 argv r := gdbGetArgs_extracts s rest argv
  have hargc := h.argc_of_start
  exact ⟨hargc, fun i hi => h.token_of_start hi,
    fun i hi => h.argv_others i (Or.inr (by omega)), h.result_iff⟩

theorem strtokR_list {gap token tail : List UInt8} (h : FirstToken isDelimiter gap token tail) :
    NetBmp.strtokR (gap ++ token ++ tail) = some (token, tail.tail) := by
  have hplain : ∀ x ∈ token, (!isDelimiter x) = true := fun x hx => by rw [h.plain x hx]; rfl
  have hstop : ∀ d ∈ tail.head?, (!isDelimiter d) = false := fun d hd => by rw [h.stop d hd]; rfl
  have htake := takeWhile_append_stop hplain hstop
  have hdrop := dropWhile_append_stop hplain hstop
  rw [NetBmp.strtokR, List.append_assoc, dropWhile_append_stop h.blank (h.head_token tail)]
  cases token with
  | nil => exact absurd rfl h.ne_nil
  | cons c cs => exact congrArg₂ (fun token rest => some (token, List.tail rest)) htake hdrop

theorem gdbGetArgsLoop_list (text : List UInt8) (room : ℕ) :
    NetBmp.gdbGetArgsLoop room text =
      (if room < (arguments text).length then .excessArguments else .ok,
        (arguments text).take room) := by
  induction text using tokens_induction isDelimiter generalizing room with
  | blank gap hgap =>
    have hnone : NetBmp.strtokR gap = none := by
      rw [NetBmp.strtokR, List.dropWhile_eq_nil_iff.mpr hgap]
    rw [arguments_blank hgap]
    cases room <;> simp [NetBmp.gdbGetArgsLoop, hnone]
  | token gap token tail h ih =>
    rw [arguments_firstToken h, List.length_cons]
    cases room with
    | zero =>
      rw [NetBmp.gdbGetArgsLoop, strtokR_list h, if_pos (Nat.succ_pos _)]
      rfl
    | succ room =>
      simp only [NetBmp.gdbGetArgsLoop, strtokR_list h, ih, List.take_succ_cons,
        Nat.add_lt_add_iff_right]

theorem gdbGetArgs_list (string : List UInt8) : NetBmp.gdbGetArgs string =
    (if gdbMaxArgCount < (arguments (cString string)).length then .excessArguments else .ok,
      (arguments (cString string)).take gdbMaxArgCount) :=
  gdbGetArgsLoop_list (cString string) gdbMaxArgCount

/-- What is left in memory reads as the lists that the commands have. -/
theorem gdbGetArgs_refines (s : CString) (rest : List UInt8) (argv : ℕ → ℕ) :
    let r := gdbGetArgs (s.chars ++ 0 :: rest) argv
    NetBmp.gdbGetArgs (s.chars ++ 0 :: rest) =
      (r.result, (List.range r.argc).map fun i => cString (r.buffer.drop (r.argv i))) := by
  intro r
  have h : Extracts [] s.chars rest 0 argv r := gdbGetArgs_extracts s rest argv
  have hargc := h.argc_of_start
  rw [gdbGetArgs_list, cString_append_zero, cString_of_no_nul s.no_nul]
  refine Prod.ext ?_ ?_
  · have hresult : r.result = .excessArguments ↔ gdbMaxArgCount < (arguments s.chars).length :=
      h.result_iff
    split_ifs with hmany
    · exact (hresult.mpr hmany).symm
    · cases hr : r.result with
      | ok => rfl
      | excessArguments => exact absurd (hresult.mp hr) hmany
  · refine List.ext_getElem (by simp [hargc, Nat.min_comm]) fun i hi _ => ?_
    rw [List.length_take] at hi
    obtain ⟨token, behind, htoken, hbehind⟩ := h.token_of_start (i := i) (by omega)
    obtain ⟨hlt, rfl⟩ := List.getElem?_eq_some_iff.mp htoken
    have hnul : 0 ∉ (arguments s.chars)[i] := fun hmem =>
      s.no_nul (mem_of_mem_tokens (p := isDelimiter)
        (by rw [← arguments_eq_tokens]; exact List.getElem_mem hlt) hmem)
    simp [hbehind, cString_append_zero, cString_of_no_nul hnul]

end Arguments
end NetBmp
