import RestfulWebserver.Http.Handlers
import RestfulWebserver.Library.Numeral

/-!
# The handler that sleeps

The constructor of `sleep_handler.cc` reads the delay off a stream into a
`size_t` that nothing has initialised. `std::chrono::milliseconds` holds a signed
number, and `sleep_for` does not wait for one that is not positive.
-/

namespace RestfulWebserver.Http

open RestfulWebserver.Library

/-- `stream >> number` for a `size_t` that holds `stored`: with nothing but blanks
left it is not touched, without digits it becomes zero, and past the type the
largest number. -/
def extractSize (stream : Bytes) (stored : Nat) : Nat :=
  if stream.dropWhile isSpace = [] then stored
  else
    match readNumeral stream with
    | none => 0
    | some (negative, magnitude) =>
        if ulongMax < magnitude then ulongMax
        else if negative then (2 ^ 64 - magnitude) % 2 ^ 64
        else magnitude

def sleepFor (milliseconds : Nat) : Nat := ((milliseconds : Int).bmod (2 ^ 64)).toNat

namespace SleepHandler

def requestBody (delayInMillis : Nat) : Bytes :=
  "Slept for ".toList ++ toDecimal delayInMillis ++ "milliseconds".toList ++ crlf

/-- The response, and the pause that is made before it, if one is. -/
def handleRequest (delayInMillis : Nat) (request : HttpRequest) : HttpResponse × Option Nat :=
  if request.method ≠ "GET".toList then
    ({ status := .badRequest
       headers := (OrderedMap.empty.assign "Content-Type".toList "text/plain".toList).assign
         "Content-Length".toList "0".toList
       body := [] }, none)
  else (textResponse .ok (requestBody delayInMillis), some (sleepFor delayInMillis))

end SleepHandler

/-- The timeout is this number, with blanks and a plus before it and anything
that is no digit behind. -/
def NamesDelay (timeout : Bytes) (delay : Nat) : Prop :=
  ∃ blanks sign digits rest : Bytes, timeout = blanks ++ (sign ++ (digits ++ rest)) ∧
    (∀ byte ∈ blanks, isSpace byte = true) ∧ (sign = [] ∨ sign = ['+']) ∧ digits ≠ [] ∧
    (∀ byte ∈ digits, byte.isDigit = true) ∧ EndsRun Char.isDigit rest ∧ decimal digits = delay

theorem extract_named {timeout : Bytes} {delay : Nat} (names : NamesDelay timeout delay)
    (stored : Nat) : extractSize timeout stored = min delay ulongMax := by
  obtain ⟨blanks, sign, digits, rest, rfl, spaces, plus, nonempty, allDigits, ends, rfl⟩ := names
  have signs : sign = [] ∨ sign = ['+'] ∨ sign = ['-'] := by
    rcases plus with none | plus
    · exact .inl none
    · exact .inr (.inl plus)
  have notMinus : sign ≠ ['-'] := by
    rcases plus with rfl | rfl <;> decide
  have numeral := read_numeral_of_grammar spaces signs nonempty allDigits ends
  rw [decide_eq_false notMinus] at numeral
  have solid : (blanks ++ (sign ++ (digits ++ rest))).dropWhile isSpace ≠ [] := by
    intro blank
    simp [readNumeral, blank, readSign] at numeral
  simp only [extractSize, if_neg solid, numeral, Bool.false_eq_true, if_false]
  by_cases large : ulongMax < decimal digits
  · rw [if_pos large, Nat.min_eq_right (Nat.le_of_lt large)]
  · rw [if_neg large, Nat.min_eq_left (Nat.not_lt.mp large)]

theorem sleep_for_eq_iff (milliseconds : Nat) :
    sleepFor milliseconds = milliseconds ↔ milliseconds < 2 ^ 63 := by
  have below := @Int.bmod_lt milliseconds (2 ^ 64) (by decide)
  have whole : milliseconds < 2 ^ 63 → (milliseconds : Int).bmod (2 ^ 64) = milliseconds := by
    intro small
    apply Int.bmod_eq_of_le <;> omega
  unfold sleepFor
  omega

theorem request_body_inj {delay other : Nat}
    (same : SleepHandler.requestBody delay = SleepHandler.requestBody other) : delay = other := by
  unfold SleepHandler.requestBody at same
  have named := List.append_cancel_right (List.append_cancel_right same)
  have numbers := congrArg decimal (List.append_cancel_left named)
  have reads : ∀ number, decimal (toDecimal number) = number :=
    fun number => Nat.ofDigitChars_ten_toDigits
  exact (reads delay).symm.trans (numbers.trans (reads other))

/-- A `GET` is answered after the pause of the configuration, with its length in
the body, exactly as long as that fits into a signed number. -/
theorem slept_as_configured_iff {timeout : Bytes} {delay : Nat}
    (names : NamesDelay timeout delay) (stored : Nat) {request : HttpRequest}
    (get : request.method = "GET".toList) :
    SleepHandler.handleRequest (extractSize timeout stored) request =
        (textResponse .ok (SleepHandler.requestBody delay), some delay) ↔ delay < 2 ^ 63 := by
  rw [SleepHandler.handleRequest, if_neg (not_not.mpr get), extract_named names]
  rw [Prod.mk.injEq, Option.some.injEq]
  constructor
  · rintro ⟨response, pause⟩
    have bounded : min delay ulongMax = delay :=
      request_body_inj (congrArg HttpResponse.body response)
    rw [bounded] at pause
    exact (sleep_for_eq_iff delay).mp pause
  · intro small
    have bounded : min delay ulongMax = delay := by
      apply Nat.min_eq_left
      rw [ulongMax]
      omega
    rw [bounded]
    exact ⟨rfl, (sleep_for_eq_iff delay).mpr small⟩

theorem slept_as_configured_iff_five :
    SleepHandler.handleRequest (extractSize " +5s".toList 7)
        ⟨"GET".toList, "/sleep".toList, "HTTP/1.1".toList, OrderedMap.empty, []⟩ =
      (textResponse .ok (SleepHandler.requestBody 5), some 5) ↔ 5 < 2 ^ 63 := by
  refine slept_as_configured_iff ?_ 7 rfl
  refine ⟨[' '], ['+'], ['5'], ['s'], rfl, ?_, .inr rfl, by decide, ?_, ?_, by decide⟩
  · exact forall_of_all (by decide)
  · exact forall_of_all (by decide)
  · exact ends_run_cons (by decide)

end RestfulWebserver.Http
