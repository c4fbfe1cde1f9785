import RestfulWebserver.Startup.RouteTable

/-!
# The port

`parse_config` hands the second token of the first `port` statement to `stoi`,
which reads the front of it; the server narrows the `int` to a `short`, and the
endpoint takes that as an unsigned 16-bit number again.
-/

namespace RestfulWebserver.Startup

open Library Library.Blocks Config

/-- The argument of the server's parameter `short port`. -/
def shortPort (portNumber : Int) : BitVec 16 := BitVec.ofInt 16 portNumber

/-- The port of `tcp::endpoint(tcp::v4(), port)`, whose parameter is an
`unsigned short`. -/
def endpointPort (portNumber : Int) : Nat := (BitVec.ofInt 16 (shortPort portNumber).toInt).toNat

/-- The two conversions cancel up to the modulus. -/
theorem endpoint_port (portNumber : Int) : (endpointPort portNumber : Int) = portNumber % 2 ^ 16 := by
  rw [endpointPort, shortPort, BitVec.ofInt_toInt, BitVec.toNat_ofInt]
  exact Int.toNat_of_nonneg (Int.emod_nonneg _ (by decide))

theorem endpoint_port_eq_iff (number : Nat) : endpointPort number = number ↔ number ≤ 65535 := by
  have reduced := endpoint_port number
  omega

def IsDecimal (text : Bytes) : Prop := text ≠ [] ∧ ∀ byte ∈ text, byte.isDigit = true

def portValue (config : NginxConfig) : Option Bytes :=
  (portStatement config).bind fun statement => (NginxConfigStatement.tokens statement)[1]?

/-- Nothing escapes, and a payload has the port that is written in the
configuration, which is the one the server binds. -/
def PortTaken (text : Bytes) : Prop :=
  ∃ result, parseConfig (some text) = .ok result ∧ ∀ payload, result = some payload →
    ∃ numeral, portValue (parse text []).2 = some numeral ∧ IsDecimal numeral ∧
      payload.portNumber = decimal numeral ∧ endpointPort payload.portNumber = decimal numeral

/-- No payload can come of the text, or its port is the decimal numeral of a
16-bit number. -/
def PortUsable (text : Bytes) : Prop :=
  (parse text []).1 = false ∨ portStatement (parse text []).2 = none ∨
    ∃ numeral, portValue (parse text []).2 = some numeral ∧
      ((IsDecimal numeral ∧ decimal numeral ≤ 65535) ∨
        (StartsWithInt numeral ∧ Refused (parse text []).2))

theorem stoi_decimal {numeral : Bytes} (plain : IsDecimal numeral)
    (bounded : decimal numeral ≤ 65535) : stoi numeral = .ok (decimal numeral) := by
  apply stoi_of_digits plain.1 plain.2
  unfold intMax
  omega

theorem read_config_no_port {config : NginxConfig} (headed : Headed config)
    (absent : portStatement config = none) : readConfig config = .ok none := by
  obtain ⟨root, unrolled, found⟩ := unroll_headed headed
  rw [portStatement, ← List.head?_filter, List.head?_eq_none_iff] at absent
  change keyed portKey config = [] at absent
  refine bind_eq_ok.mpr ⟨root, unrolled, ?_⟩
  rw [found, absent]
  rfl

theorem read_config_has_port {config : NginxConfig} (headed : Headed config)
    {statement : NginxConfigStatement} (first : portStatement config = some statement)
    {result : Option ConfigPayload} (read : readConfig config = .ok result) :
    ∃ port, HasPort config port := by
  obtain ⟨root, unrolled, found⟩ := unroll_headed headed
  obtain ⟨others, ports⟩ := ports_found found first
  obtain ⟨_, same, read⟩ := bind_eq_ok.mp read
  cases unrolled.symm.trans same
  rw [ports] at read
  obtain ⟨_, same, read⟩ := bind_eq_ok.mp read
  cases same
  obtain ⟨numeral, second, read⟩ := bind_eq_ok.mp read
  obtain ⟨port, number, _⟩ := bind_eq_ok.mp read
  refine ⟨port, statement, numeral, first, ?_, ?_⟩
  · rw [vectorAt] at second
    split at second
    · cases second
    · rename_i value stored
      cases second
      exact stored
  · cases value : stoi numeral with
    | error error =>
        rw [value] at number
        cases number
    | ok value =>
        rw [value] at number
        cases number
        rfl

theorem port_value_of_has {config : NginxConfig} {port : Int} (has : HasPort config port) :
    ∃ numeral, portValue config = some numeral ∧ stoi numeral = .ok port := by
  obtain ⟨statement, numeral, first, second, read⟩ := has
  exact ⟨numeral, by rw [portValue, first]; exact second, read⟩

theorem has_of_port_value {config : NginxConfig} {numeral : Bytes} {port : Int}
    (stored : portValue config = some numeral) (read : stoi numeral = .ok port) :
    HasPort config port := by
  obtain ⟨statement, first, second⟩ := Option.bind_eq_some_iff.mp stored
  exact ⟨statement, numeral, first, second, read⟩

/-- The port is taken from the configuration, or the configuration refused, for
exactly these texts. -/
theorem port_taken_iff (text : Bytes) : PortTaken text ↔ PortUsable text := by
  rcases parsed : parse text [] with ⟨accepted, config⟩
  rw [PortTaken, PortUsable, parseConfig, parsed]
  cases accepted with
  | false => exact iff_of_true ⟨none, rfl, by simp⟩ (.inl rfl)
  | true =>
      have headed := headed_of_parse parsed
      simp only [Bool.true_eq_false, false_or]
      cases first : portStatement config with
      | none => exact iff_of_true ⟨none, read_config_no_port headed first, by simp⟩ (.inl rfl)
      | some statement =>
          simp only [reduceCtorEq, false_or]
          constructor
          · rintro ⟨result, read, taken⟩
            obtain ⟨port, has⟩ := read_config_has_port headed first read
            obtain ⟨numeral, stored, number⟩ := port_value_of_has has
            refine ⟨numeral, stored, ?_⟩
            rcases read_config_port headed has with ⟨refused, _⟩ | ⟨_, routes, made, _⟩
            · exact .inr ⟨(stoi_returns_iff numeral).mp ⟨port, number⟩, refused⟩
            · cases read.symm.trans made
              obtain ⟨_, same, plain, value, bound⟩ := taken _ rfl
              cases stored.symm.trans same
              rw [value, endpoint_port_eq_iff] at bound
              exact .inl ⟨plain, bound⟩
          · rintro ⟨numeral, stored, ⟨plain, bounded⟩ | ⟨starts, refused⟩⟩
            · have has := has_of_port_value stored (stoi_decimal plain bounded)
              rcases read_config_port headed has with ⟨_, made⟩ | ⟨_, routes, made, _⟩
              · exact ⟨none, made, by simp⟩
              · refine ⟨_, made, fun payload same => ?_⟩
                cases same
                exact ⟨numeral, stored, plain, rfl, (endpoint_port_eq_iff _).mpr bounded⟩
            · obtain ⟨port, number⟩ := (stoi_returns_iff numeral).mpr starts
              have has := has_of_port_value stored number
              rcases read_config_port headed has with ⟨_, made⟩ | ⟨allowed, _⟩
              · exact ⟨none, made, by simp⟩
              · exact absurd refused allowed

/-- Without a value an exception escapes, and what is too large for the endpoint
is taken all the same. -/
theorem port_not_taken :
    ¬ PortTaken "port;".toList ∧ ¬ PortTaken "port 65536;".toList := by
  have empty : tokens "port;".toList =
      [⟨.normal, "port".toList⟩, ⟨.statementEnd, [';']⟩, ⟨.eof, []⟩] := by
    decide +kernel
  have large : tokens "port 65536;".toList =
      [⟨.normal, "port".toList⟩, ⟨.normal, "65536".toList⟩, ⟨.statementEnd, [';']⟩,
        ⟨.eof, []⟩] := by
    decide +kernel
  constructor
  · rintro ⟨result, read, _⟩
    rw [parseConfig, parse, empty] at read
    cases read
  · rintro ⟨result, read, taken⟩
    rw [parseConfig, parse, large] at read
    cases read
    obtain ⟨numeral, stored, _, _, bound⟩ := taken _ rfl
    rw [parse, large] at stored
    cases stored
    exact absurd bound (by decide)

end RestfulWebserver.Startup
