import RestfulWebserver.Static.Containment

/-!
# `is_path_safe` for every root

The check compares texts and looks at the byte behind the root. The text of `/` ends
in the separator itself, so for this one root it looks at the wrong byte.
-/

namespace RestfulWebserver.Static

open Library Http

/-- Answers where `canonical` and `weakly_canonical` are given functions to absolute
paths in normal form. -/
def givenAnswer (canonicalOf weaklyOf : Bytes → NormalPath)
    (others : (call : StaticCall) → call.Answer) : (call : StaticCall) → call.Answer
  | .canonical path => .ok (canonicalOf path).text
  | .weaklyCanonical path => .ok (weaklyOf path).text
  | call => others call

def pathSafe (canonicalOf weaklyOf : Bytes → NormalPath)
    (others : (call : StaticCall) → call.Answer) (baseDir path : Bytes) : Except Failure Bool :=
  (Program.exec (fun call world => (givenAnswer canonicalOf weaklyOf others call, world))
    (StaticFileHandler.isPathSafe baseDir path).run ()).1

theorem path_safe (canonicalOf weaklyOf : Bytes → NormalPath)
    (others : (call : StaticCall) → call.Answer) (baseDir path : Bytes) :
    pathSafe canonicalOf weaklyOf others baseDir path =
      .ok (decide (StartsPath (canonicalOf baseDir).text (weaklyOf path).text)) := by
  have ran := @exec_safe baseDir path Unit
    (fun call world => (givenAnswer canonicalOf weaklyOf others call, world)) () () () _ _ rfl rfl
  exact congrArg Prod.fst ran

/-- The check is the test of the components exactly where the root is not `/`, or
where `/` itself is asked for. -/
theorem path_safe_iff (canonicalOf weaklyOf : Bytes → NormalPath)
    (others : (call : StaticCall) → call.Answer) (baseDir path : Bytes) :
    (pathSafe canonicalOf weaklyOf others baseDir path = .ok true ↔
        elements (canonicalOf baseDir).text <+: elements (weaklyOf path).text) ↔
      ((canonicalOf baseDir).text ≠ "/".toList ∨ (weaklyOf path).text = "/".toList) := by
  rw [path_safe, Except.ok.injEq, decide_eq_true_eq]
  exact NormalPath.starts_elements_iff _ _

/-- With the root `/` a file below it is refused. -/
theorem root_refuses_file :
    ¬ ∀ (canonicalOf weaklyOf : Bytes → NormalPath) (others : (call : StaticCall) → call.Answer)
      (baseDir path : Bytes),
      pathSafe canonicalOf weaklyOf others baseDir path = .ok true ↔
        elements (canonicalOf baseDir).text <+: elements (weaklyOf path).text := by
  intro always
  have refused := path_safe (fun _ => normalOf [] false) (fun _ => normalOf [rootName, pageName] false)
    siblingFiles.answer "/".toList "/www/a".toList
  have inside := (always (fun _ => normalOf [] false) (fun _ => normalOf [rootName, pageName] false)
    siblingFiles.answer "/".toList "/www/a".toList).mpr (by decide)
  rw [refused] at inside
  exact absurd inside (by decide)

end RestfulWebserver.Static
