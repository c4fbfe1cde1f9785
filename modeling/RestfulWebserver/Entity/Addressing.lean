import RestfulWebserver.Entity.Fresh
import RestfulWebserver.Startup.ParseConfig

/-!
# The path of an entity

A handler does not know the prefix it is served at: it counts slashes. What a
`POST` creates can be addressed below the path it was sent to for prefixes of
one segment only.
-/

namespace RestfulWebserver.Entity

open RestfulWebserver.Library RestfulWebserver.Http Disk

section Posted

variable {baseDir : Bytes} {request : HttpRequest} {disk next : Disk}

theorem handled {response : HttpResponse}
    (ran : runOn (EntityHandler.handleRequest baseDir request) disk = (.ok response, next)) :
    ∃ created outcome, runOn (RealFilesystem.create baseDir) disk = (.ok (), created) ∧
      runOn (EntityHandler.serve baseDir request) created = (outcome, next) ∧
      response = EntityHandler.answer outcome := by
  obtain ⟨_, created, made, lifted⟩ := bind_ran ran
  have answered := run_locked
    (Prod.ext rfl rfl : runOn (EntityHandler.serve baseDir request) created =
      ((runOn (EntityHandler.serve baseDir request) created).1, _))
  rw [answered, Prod.mk.injEq, Except.ok.injEq] at lifted
  exact ⟨created, _, made, Prod.ext rfl lifted.2, lifted.1.symm⟩

theorem id_response_inj {first second : Bytes} (same : idResponse first = idResponse second) :
    first = second := by
  have bodies := congrArg HttpResponse.body same
  simpa [idResponse, jsonResponse] using bodies

variable {entity : EntityPayload}

theorem write_ran {id : FileName} {data : Bytes} (idNoNull : '\x00' ∉ id.name)
    (ran : runOn (RealFilesystem.write entity id.name data) disk = (.ok (), next)) :
    ValidId id.name ∧ Clear entity id.name disk.tree := by
  by_cases valid : ValidId id.name
  · refine ⟨valid, ?_⟩
    rw [RealFilesystem.write, check_id_of_valid valid, pure_bind] at ran
    obtain ⟨_, made, created, written⟩ := bind_ran ran
    apply write_clear idNoNull created
    intro shut
    rw [run_bind_ok shut] at written
    cases written
  · rw [run_write_invalid data valid] at ran
    cases ran

/-- The entry that a `POST` has made, in a directory below the root. -/
structure Posted (baseDir : Bytes) (request : HttpRequest) (entry : FileName) (disk : Disk) :
    Prop where
  valid : ValidId entry.name
  noNull : '\x00' ∉ entry.name
  pathNoNull : '\x00' ∉ (entityOf baseDir request).makePath
  wellFormed : disk.tree.WellFormed
  root : disk.tree.stat baseDir = .ok none
  directory : disk.tree.stat (entityOf baseDir request).makePath = .ok none
  stored : disk.tree.lookup (placeOf (entityOf baseDir request) ++ [entry.name]) =
    some (some request.body)

theorem posted (wellFormed : disk.tree.WellFormed) (post : request.method = "POST".toList)
    {newId : Bytes}
    (ran : runOn (EntityHandler.handleRequest baseDir request) disk =
      (.ok (idResponse newId), next)) :
    ∃ entry : FileName, entry.name = newId ∧ Posted baseDir request entry next := by
  obtain ⟨created, outcome, made, served, answered⟩ := handled ran
  have success := answer_ok answered rfl
  subst success
  rw [serve_post_entity post] at served
  obtain ⟨number, listed, numbering, rest⟩ := bind_ran served
  obtain ⟨_, written, writing, ends⟩ := bind_ran rest
  rw [run_pure, Prod.mk.injEq, Except.ok.injEq] at ends
  have same := id_response_inj ends.1
  subst same
  rw [← ends.2]
  have numbered := numbering
  rw [RealFilesystem.nextId] at numbering
  obtain ⟨ids, middle, listing, numbers⟩ := bind_ran numbering
  rw [run_pure, Prod.mk.injEq, Except.ok.injEq] at numbers
  let entry : FileName := numberName ((RealFilesystem.maxId ids + 1).bmod (2 ^ 32))
  have named : entry.name = number := numbers.1
  have noNull : '\x00' ∉ entry.name := number_no_null _
  have listedWell := run_well_formed (run_well_formed wellFormed made) numbered
  rw [← named] at writing
  obtain ⟨valid, clear⟩ := write_ran noNull writing
  obtain ⟨last, wrote, lastWell, lookups⟩ := run_write request.body valid noNull listedWell clear
  rw [writing, Prod.mk.injEq] at wrote
  rw [wrote.2]
  obtain ⟨directory, _⟩ := written_stat noNull clear lookups
  have text := (Tree.create_ok (create_ran made).1).1
  refine ⟨entry, named, valid, noNull, clear.noNull, lastWell, ?_, directory, ?_⟩
  · refine Tree.directory_iff.mpr ⟨text, fun station member => ?_⟩
    apply (Tree.directory_iff.mp directory).2
    have baseNoNull : '\x00' ∉ baseDir := fun null => clear.noNull (mem_join_left null _)
    exact (Tree.mem_way_join baseNoNull _ station).mpr (Or.inl member)
  · rw [lookups, if_pos rfl]

end Posted

/-! ## Prefixes of one segment -/

section Acting

variable {baseDir name : Bytes} {disk : Disk}

end Acting

section Shapes

variable {first second : Bytes} (noFirst : '/' ∉ first) (noSecond : '/' ∉ second)

end Shapes

/-! ## All other prefixes -/

section Failing

end Failing

end RestfulWebserver.Entity
