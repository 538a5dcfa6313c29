import PathRules.Model.Instance
import PathRules.Proofs.Model.Cache
import PathRules.Proofs.Model.CycleGuard
import PathRules.Proofs.Run.Discipline
import PathRules.Proofs.Run.Handwork
import PathRules.Proofs.Run.Queries
import PathRules.Proofs.Run.Reached
import PathRules.Proofs.Run.ShortCircuit
import PathRules.Report.Record
import PathRules.Report.Tally
import PathRules.Run.Observers
import PathRules.Run.Session
import PathRules.Proofs.Outcome.Standing
import PathRules.Proofs.Declaration.Building
import PathRules.Proofs.Outcome.Alike
import PathRules.Proofs.Run.Wrapping
import PathRules.Proofs.Run.Demotion
import PathRules.Proofs.Outcome.Summaries
import PathRules.Proofs.Run.Summaries
import PathRules.Proofs.Run.Guards
import PathRules.Proofs.Declaration.Narrowing
import PathRules.Proofs.Model.Absent
import PathRules.Proofs.Model.Applicable
import PathRules.Proofs.Constraint.Rendering
import PathRules.Proofs.Declaration.Keys
import PathRules.Proofs.Model.FailedRegistration
import PathRules.Proofs.Outcome.Layout
import PathRules.Proofs.Constraint.Uniqueness
import PathRules.Proofs.Run.ReadOnce
import PathRules.Proofs.Declaration.Indices
import PathRules.Proofs.Model.RelationTypes
import PathRules.Proofs.Report.Frequencies
import PathRules.Proofs.Run.Outlines
import PathRules.Proofs.Declaration.Changes
