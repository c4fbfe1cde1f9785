import RestfulWebserver.Config.RoundTrip
import RestfulWebserver.Startup.ParseConfig

/-!
# A configuration printed from its tree

The words of a tree that was accepted are all tokens `ParseToken` has delivered.
So it can be printed, and the printed text stands for the file it was read from:
it parses to the same tree and `parse_config` makes the same of it.
-/

namespace RestfulWebserver.Startup

open Library
open Library.Blocks
open Config

theorem delivered_normal {input : Bytes} {token : Token} (delivered : token ∈ tokens input)
    (normal : token.type = .normal) : IsNormal token.value := by
  induction input using tokens.induct with
  | case1 input last =>
      rw [tokens, if_pos last, List.mem_singleton] at delivered
      subst delivered
      simp [TokenType.isLast, normal] at last
  | case2 input more ih =>
      rw [tokens, if_neg more, List.mem_cons] at delivered
      rcases delivered with rfl | later
      · refine ⟨input, (parseToken input).2, ?_⟩
        rw [← normal]
      · exact ih later

theorem spelled_by_token {read : List Token} {terminals : List (Symbol Bytes)} {value : Bytes}
    (spelled : symbols read = some terminals) (member : Symbol.word value ∈ terminals) :
    ∃ token ∈ read, token.type = .normal ∧ token.value = value := by
  induction read generalizing terminals with
  | nil =>
      cases spelled
      cases member
  | cons token read ih =>
      rw [symbols] at spelled
      split_ifs at spelled with comment
      · obtain ⟨found, later, both⟩ := ih spelled member
        exact ⟨found, List.mem_cons_of_mem _ later, both⟩
      · obtain ⟨symbol, terminal, after⟩ := Option.bind_eq_some_iff.mp spelled
        obtain ⟨others, spelledRest, rfl⟩ := Option.map_eq_some_iff.mp after
        rcases List.mem_cons.mp member with rfl | later
        · refine ⟨token, List.mem_cons_self, ?_⟩
          obtain ⟨type, text⟩ := token
          cases type <;> cases terminal
          exact ⟨rfl, rfl⟩
        · obtain ⟨found, there, both⟩ := ih spelledRest later
          exact ⟨found, List.mem_cons_of_mem _ there, both⟩

theorem accepted_printable {text : Bytes} {config : NginxConfig}
    (accepted : parse text [] = (true, config)) : Printable config := by
  obtain ⟨read, last, delivered, inside, eof, terminals, spelled, derives⟩ :=
    (parse_iff_derives text config).mp accepted
  obtain ⟨rfl, headed⟩ := (derives_iff _ _).mp derives
  refine every_of_spelled config headed fun value member => ?_
  obtain ⟨token, there, normal, rfl⟩ := spelled_by_token spelled member
  have among : token ∈ tokens text := by
    rw [delivered]
    exact List.mem_append_left _ there
  exact delivered_normal among normal

/-- The printed tree of an accepted text parses to that tree at every depth and
configures the server as the text does, and only texts that are parsed alike are
printed alike. -/
theorem reprinted_for_the_file (text : Bytes) (config : NginxConfig)
    (accepted : parse text [] = (true, config)) (depth : Nat) :
    parse (NginxConfig.toString depth config) [] = (true, config) ∧
      parseConfig (some (NginxConfig.toString depth config)) = parseConfig (some text) ∧
      ∀ other otherConfig, parse other [] = (true, otherConfig) →
        (NginxConfig.toString depth otherConfig = NginxConfig.toString depth config ↔
          otherConfig = config) := by
  have again := printed_parses (accepted_printable accepted) depth
  refine ⟨again, ?_, fun other otherConfig otherAccepted => ?_⟩
  · simp only [parseConfig, again, accepted]
  · constructor
    · intro alike
      have otherAgain := printed_parses (accepted_printable otherAccepted) depth
      rw [alike, again, Prod.mk.injEq] at otherAgain
      exact otherAgain.2.symm
    · rintro rfl
      rfl

theorem reprinted_for_the_file_commented :
    parse (NginxConfig.toString 2 [.plain ["port".toList, "80".toList]]) [] =
      (true, [.plain ["port".toList, "80".toList]]) := by
  refine (reprinted_for_the_file "port\t80 ;# main".toList _ ?_ 2).1
  have delivered : tokens "port\t80 ;# main".toList = [⟨.normal, "port".toList⟩,
      ⟨.normal, "80".toList⟩, ⟨.statementEnd, [';']⟩, ⟨.eof, "# main".toList⟩] := by
    decide +kernel
  rw [parse, delivered]
  rfl

end RestfulWebserver.Startup
