import SoftRules.CommandLine.Run

/-!
Runs that are watched: a host that keeps a record of the files it is asked for.

Watching does not interfere. A watched run, without its record, is the run itself
(`Host.shadows_run`), on every host.
-/

set_option autoImplicit false

namespace SoftRules

/-- The names of the files that have been asked for, in order. -/
abbrev WatchT (m : Type → Type) : Type → Type := StateT (List String) m

/-- The host, with a record of the files that are read. -/
def Host.watched {m : Type → Type} [Monad m] (host : Host m) : Host (WatchT m) where
  read file := do
    modify (· ++ [file])
    host.read file
  write file text := host.write file text
  print text := host.print text
  log record := host.log record
  report text := host.report text

section Shadows

variable {m : Type → Type} [Monad m] {α β : Type}

/-- A watched action is an action with a record beside it. -/
def Shadows (watched : WatchT m α) (plain : m α) : Prop :=
  ∀ reads, Prod.fst <$> watched.run reads = plain

namespace Shadows

variable [LawfulMonad m]

theorem pure (value : α) : Shadows (Pure.pure value : WatchT m α) (Pure.pure value) := by
  intro reads
  simp

theorem lift (action : m α) : Shadows (liftM action : WatchT m α) action := by
  intro reads
  simp

theorem bind {watched : WatchT m α} {plain : m α} {watchedNext : α → WatchT m β}
    {plainNext : α → m β} (first : Shadows watched plain)
    (next : ∀ value, Shadows (watchedNext value) (plainNext value)) :
    Shadows (watched >>= watchedNext) (plain >>= plainNext) := by
  intro reads
  calc Prod.fst <$> (watched >>= watchedNext).run reads
      = watched.run reads >>= fun found => Prod.fst <$> (watchedNext found.1).run found.2 := by
        simp
    _ = watched.run reads >>= fun found => plainNext found.1 := by
        simp only [next _ _]
    _ = (Prod.fst <$> watched.run reads) >>= plainNext := by simp
    _ = plain >>= plainNext := by rw [first reads]

end Shadows

end Shadows

namespace Host

variable {m : Type → Type} [Monad m] [LawfulMonad m] (host : Host m) (filter : LogFilter)

theorem shadows_read (file : String) : Shadows (host.watched.read file) (host.read file) := by
  intro reads
  simp [watched]

theorem shadows_report (text : String) :
    Shadows (host.watched.report text) (host.report text) :=
  .lift _

theorem shadows_emit (area : Area) (record : LogRecord) :
    Shadows (host.watched.emit filter area record) (host.emit filter area record) := by
  unfold emit
  split
  · exact .lift _
  · exact .pure ()

theorem shadows_emitAll (area : Area) (records : List LogRecord) :
    Shadows (host.watched.emitAll filter area records) (host.emitAll filter area records) := by
  induction records with
  | nil => exact .pure ()
  | cons record records inductionHypothesis =>
      exact .bind (host.shadows_emit filter area record) fun _ => inductionHypothesis

theorem shadows_encodeFile (session : Session) (output : Program) (file : String) :
    Shadows (host.watched.encodeFile filter session output file)
      (host.encodeFile filter session output file) := by
  apply Shadows.bind (host.shadows_emit filter _ _)
  intro _
  apply Shadows.bind (host.shadows_read file)
  intro answer
  cases answer with
  | error error => exact .pure _
  | ok text =>
      dsimp only
      cases Program.parse text.toList with
      | error error => exact .bind (host.shadows_report _) fun _ => .pure _
      | ok program =>
          apply Shadows.bind (host.shadows_emitAll filter _ _)
          intro _
          cases (session.encodeAll program).error with
          | some error => exact .bind (host.shadows_report _) fun _ => .pure _
          | none => exact .pure _

theorem shadows_encodeFiles (session : Session) (output : Program) (files : List String) :
    Shadows (host.watched.encodeFiles filter session output files)
      (host.encodeFiles filter session output files) := by
  induction files generalizing session output with
  | nil => exact .pure _
  | cons file files inductionHypothesis =>
      apply Shadows.bind (host.shadows_encodeFile filter session output file)
      intro answer
      cases answer with
      | error error => exact .pure _
      | ok outcome => exact inductionHypothesis outcome.1 outcome.2

theorem shadows_save (output : Option String) (text : String) :
    Shadows (host.watched.save output text) (host.save output text) := by
  cases output with
  | none => exact .bind (.lift (host.print text)) fun _ => .pure _
  | some file =>
      apply Shadows.bind (.lift (host.write file text))
      intro answer
      cases answer with
      | error error => exact .pure _
      | ok _ => exact .pure _

/-- Whether a run is watched makes no difference to what it does. -/
theorem shadows_run (options : Options) :
    Shadows (host.watched.run filter options) (host.run filter options) := by
  apply Shadows.bind (host.shadows_encodeFiles filter _ _ _)
  intro answer
  cases answer with
  | error error => exact .pure _
  | ok outcome =>
      exact .bind (host.shadows_emit filter _ _) fun _ => host.shadows_save _ _

end Host

end SoftRules
