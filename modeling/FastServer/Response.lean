import FastServer.Basic

namespace FastServer.Response

def cr : UInt8 := 13
def lf : UInt8 := 10
def space : UInt8 := 32
def minus : UInt8 := 45

/-- The ASCII digit `d`. -/
def digitByte (d : Nat) : UInt8 := UInt8.ofNat (48 + d)

/-- The digit-count loop of `appendInt`, `for tmp > 0 { digits++; tmp /= 10 }`; `fuel` bounds
its iterations. -/
def countDigits : Nat → Nat → Nat
  | 0, _ => 0
  | fuel + 1, tmp => if tmp = 0 then 0 else countDigits fuel (tmp / 10) + 1

/-- The fill loop of `appendInt`, `for j := digits - 1; j >= 0; j--`: position `j` of the
digit field gets the last digit of `i`, then `i /= 10`. -/
def fillDigits : Nat → Nat → Bytes → Bytes
  | 0, _, field => field
  | j + 1, i, field => fillDigits j (i / 10) (field.set j (digitByte (i % 10)))

/-- Go's `-i` on a 64-bit `int`: the most negative value is its own negation. -/
def negInt64 (i : Int) : Int := if i = -2 ^ 63 then i else -i

/-- `appendInt(b, i)` of package http, for an `int` `i`. -/
def appendInt (b : Bytes) (i : Int) : Bytes :=
  if i = 0 then b ++ [digitByte 0]
  else
    let b := if i < 0 then b ++ [minus] else b
    let i := if i < 0 then negInt64 i else i
    let digits := countDigits i.toNat i.toNat
    b ++ fillDigits digits i.toNat (List.replicate digits (digitByte 0))

def statusText (code : Int) : Bytes :=
  if code = 200 then lit "OK"
  else if code = 201 then lit "Created"
  else if code = 400 then lit "Bad Request"
  else if code = 404 then lit "Not Found"
  else if code = 500 then lit "Internal Server Error"
  else lit "Unknown"

/-- The status line of a response, without its CRLF. -/
def statusLine (code : Int) : Bytes := lit "HTTP/1.1 " ++ appendInt [] code ++ [space] ++ statusText code

/-- The buffer that `String`, `JSON`, `Bytes` and `Data` of `FDContext` all build: status line,
`Content-Type`, `Content-Length`, blank line, body. -/
def responseBytes (code : Int) (contentType body : Bytes) : Bytes :=
  statusLine code ++ lit "\r\n" ++ (lit "Content-Type: " ++ contentType) ++ lit "\r\n" ++
    (lit "Content-Length: " ++ appendInt [] body.length) ++ lit "\r\n\r\n" ++ body

/-- Reads header lines, each ended by CRLF, up to the first empty one; gives the lines and the
bytes after the blank line. `pendingCR` records a CR just read and not yet placed. -/
def readHead : Bytes → Bool → Bytes → List Bytes → Option (List Bytes × Bytes)
  | [], _, _, _ => none
  | c :: rest, pendingCR, line, lines =>
      if pendingCR ∧ c = lf then
        if line = [] then some (lines.reverse, rest) else readHead rest false [] (line :: lines)
      else
        let line := if pendingCR then line ++ [cr] else line
        if c = cr then readHead rest true line lines else readHead rest false (line ++ [c]) lines

def isDigit (b : UInt8) : Bool := 48 ≤ b.toNat ∧ b.toNat ≤ 57

def parseDecimal (s : Bytes) : Option Nat :=
  if s ≠ [] ∧ s.all isDigit then some (s.foldl (fun n b => n * 10 + (b.toNat - 48)) 0) else none

/-- The values of the head's `Content-Length` lines. -/
def contentLengths (lines : List Bytes) : List Bytes :=
  lines.filterMap fun l =>
    if hasPrefix l (lit "Content-Length: ") then some (l.drop (lit "Content-Length: ").length) else none

/-- One response taken off the front of a stream: its head lines, the body of the length its
single `Content-Length` header names, and the rest of the stream. -/
def delimit (stream : Bytes) : Option (List Bytes × Bytes × Bytes) :=
  match readHead stream false [] [] with
  | none => none
  | some (lines, after) =>
      match contentLengths lines with
      | [v] =>
          match parseDecimal v with
          | some n => if n ≤ after.length then some (lines, after.take n, after.drop n) else none
          | none => none
      | _ => none

/-- The `j` last digits of `i`, most significant first: what `fillDigits` writes. -/
def padded : Nat → Nat → Bytes
  | 0, _ => []
  | j + 1, i => padded j (i / 10) ++ [digitByte (i % 10)]

/-- The value of a digit string, as `parseDecimal` reads it. -/
def digitValue (s : Bytes) : Nat := s.foldl (fun n b => n * 10 + (b.toNat - 48)) 0

theorem digitByte_toNat {d : Nat} (h : d < 10) : (digitByte d).toNat = 48 + d :=
  UInt8.toNat_ofNat_of_lt (by unfold UInt8.size; omega)

theorem drop_set_self {l : Bytes} {j : Nat} (a : UInt8) (h : j < l.length) :
    (l.set j a).drop j = a :: l.drop (j + 1) := by
  rw [List.drop_set, if_neg (Nat.lt_irrefl j), List.drop_eq_getElem_cons h, Nat.sub_self]
  rfl

theorem fillDigits_eq (j i : Nat) (field : Bytes) (h : j ≤ field.length) :
    fillDigits j i field = padded j i ++ field.drop j := by
  induction j generalizing i field with
  | zero => rfl
  | succ j ih =>
      rw [fillDigits, ih _ _ (by simpa using Nat.le_of_succ_le h), drop_set_self _ h, padded]
      simp

theorem digitValue_padded (j i : Nat) : digitValue (padded j i) = i % 10 ^ j := by
  induction j generalizing i with
  | zero => simp [padded, digitValue, Nat.mod_one]
  | succ j ih =>
      have hd := digitByte_toNat (Nat.mod_lt i (by decide : 10 > 0))
      have ih' : digitValue (padded j (i / 10)) = i / 10 % 10 ^ j := ih (i / 10)
      simp only [digitValue] at ih' ⊢
      rw [padded, List.foldl_append, ih']
      simp only [List.foldl_cons, List.foldl_nil, hd, Nat.pow_succ, Nat.mul_comm _ 10]
      rw [Nat.mod_mul]
      omega

theorem isDigit_of_mem_padded {j i : Nat} {b : UInt8} (h : b ∈ padded j i) : isDigit b := by
  induction j generalizing i with
  | zero => simp [padded] at h
  | succ j ih =>
      rcases List.mem_append.mp h with h | h
      · exact ih h
      · have hd := digitByte_toNat (Nat.mod_lt i (by decide : 10 > 0))
        rw [List.mem_singleton.mp h]
        simp only [isDigit, hd, decide_eq_true_eq]
        omega

theorem lt_pow_countDigits {fuel i : Nat} (h : i ≤ fuel) : i < 10 ^ countDigits fuel i := by
  induction fuel generalizing i with
  | zero => simp [countDigits]; omega
  | succ fuel ih =>
      rw [countDigits]
      split_ifs with hi
      · simp; omega
      · have := ih (i := i / 10) (by omega)
        rw [Nat.pow_succ]
        omega

theorem countDigits_pos {fuel i : Nat} (hf : 0 < fuel) (hi : 0 < i) : 0 < countDigits fuel i := by
  cases fuel with
  | zero => omega
  | succ fuel => simp [countDigits, Nat.pos_iff_ne_zero.mp hi]

theorem appendInt_pos {n : Nat} (hn : 0 < n) :
    appendInt [] n = padded (countDigits n n) n := by
  have h0 : (n : Int) ≠ 0 := by omega
  have h1 : ¬ (n : Int) < 0 := by omega
  simp only [appendInt, h0, h1, if_false, Int.toNat_ofNat, List.nil_append]
  rw [fillDigits_eq _ _ _ (by simp), List.drop_replicate, Nat.sub_self, List.replicate_zero,
    List.append_nil]

theorem parseDecimal_appendInt (n : Nat) : parseDecimal (appendInt [] n) = some n := by
  rcases Nat.eq_zero_or_pos n with rfl | hn
  · decide
  · rw [appendInt_pos hn, parseDecimal, if_pos]
    · rw [← digitValue, digitValue_padded, Nat.mod_eq_of_lt (lt_pow_countDigits le_rfl)]
    · refine ⟨?_, List.all_eq_true.mpr fun b hb => isDigit_of_mem_padded hb⟩
      obtain ⟨d, hd⟩ := Nat.exists_eq_succ_of_ne_zero (countDigits_pos hn hn).ne'
      rw [hd, padded]
      simp

theorem appendInt_byte (i : Int) {b : UInt8} (h : b ∈ appendInt [] i) : b = minus ∨ isDigit b := by
  simp only [appendInt] at h
  split_ifs at h with h0 hneg
  · rw [List.nil_append, List.mem_singleton] at h
    subst h
    exact .inr (by decide)
  · rw [fillDigits_eq _ _ _ (by simp), List.drop_replicate, Nat.sub_self] at h
    simp only [List.nil_append, List.replicate_zero, List.append_nil, List.singleton_append,
      List.mem_cons] at h
    exact h.imp id isDigit_of_mem_padded
  · rw [fillDigits_eq _ _ _ (by simp), List.drop_replicate, Nat.sub_self] at h
    simp only [List.nil_append, List.replicate_zero, List.append_nil] at h
    exact .inr (isDigit_of_mem_padded h)

theorem cr_not_mem_appendInt (i : Int) : cr ∉ appendInt [] i := fun h => by
  rcases appendInt_byte i h with h | h <;> revert h <;> decide

theorem cr_not_mem_statusText (code : Int) : cr ∉ statusText code := by
  unfold statusText
  split_ifs <;> decide

theorem cr_not_mem_statusLine (code : Int) : cr ∉ statusLine code := by
  simp only [statusLine, List.mem_append, not_or]
  exact ⟨⟨⟨by decide, cr_not_mem_appendInt code⟩, by decide⟩, cr_not_mem_statusText code⟩

theorem readHead_line {l : Bytes} (hl : cr ∉ l) (acc : Bytes) (lines : List Bytes) (s : Bytes)
    (hne : acc ++ l ≠ []) :
    readHead (l ++ cr :: lf :: s) false acc lines = readHead s false [] ((acc ++ l) :: lines) := by
  induction l generalizing acc with
  | nil =>
      rw [List.append_nil] at hne
      simp [readHead, hne, show cr ≠ lf by decide]
  | cons x l ih =>
      have hx : x ≠ cr := fun h => hl (h ▸ List.mem_cons_self x l)
      rw [List.cons_append, readHead]
      simpa [hx] using ih (fun h => hl (List.mem_cons_of_mem x h)) (acc ++ [x]) (by simp)

theorem readHead_blank (lines : List Bytes) (s : Bytes) :
    readHead (cr :: lf :: s) false [] lines = some (lines.reverse, s) := by
  simp [readHead, show cr ≠ lf by decide]

theorem contentLengths_response (code : Int) (contentType v : Bytes) :
    contentLengths [statusLine code, lit "Content-Type: " ++ contentType, lit "Content-Length: " ++ v] =
      [v] := by
  have hs : hasPrefix (statusLine code) (lit "Content-Length: ") = false := by
    rw [statusLine, List.append_assoc, List.append_assoc]
    exact hasPrefix_append_of_disagree (by decide) (by decide) _
  have ht : hasPrefix (lit "Content-Type: " ++ contentType) (lit "Content-Length: ") = false :=
    hasPrefix_append_of_disagree (by decide) (by decide) _
  simp [contentLengths, hs, ht, hasPrefix_append_self]

theorem delimit_responseBytes (code : Int) {contentType : Bytes} (hct : cr ∉ contentType)
    (body rest : Bytes) :
    delimit (responseBytes code contentType body ++ rest) =
      some ([statusLine code, lit "Content-Type: " ++ contentType,
        lit "Content-Length: " ++ appendInt [] body.length], body, rest) := by
  have hcrlf : lit "\r\n" = [cr, lf] := by decide
  have hblank : lit "\r\n\r\n" = [cr, lf, cr, lf] := by decide
  have hct' : cr ∉ lit "Content-Type: " ++ contentType := by simp [hct, show cr ∉ lit "Content-Type: " by decide]
  have hcl : cr ∉ lit "Content-Length: " ++ appendInt [] body.length := by
    simp [cr_not_mem_appendInt, show cr ∉ lit "Content-Length: " by decide]
  have hstream : responseBytes code contentType body ++ rest =
      statusLine code ++ cr :: lf :: ((lit "Content-Type: " ++ contentType) ++ cr :: lf ::
        ((lit "Content-Length: " ++ appendInt [] body.length) ++ cr :: lf :: cr :: lf :: (body ++ rest))) := by
    simp [responseBytes, hcrlf, hblank]
  rw [delimit, hstream, readHead_line (cr_not_mem_statusLine code) [] [] _ (by simp [statusLine]),
    readHead_line hct' [] _ _ (by simp [show lit "Content-Type: " ≠ [] by decide]),
    readHead_line hcl [] _ _ (by simp [show lit "Content-Length: " ≠ [] by decide]), readHead_blank]
  simp [contentLengths_response, parseDecimal_appendInt]

end FastServer.Response
