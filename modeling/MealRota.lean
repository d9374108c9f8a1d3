import MealRota.Form.Plan
import MealRota.Form.Recipe
import MealRota.Plan.Generate
import MealRota.Plan.Regenerate
import MealRota.Plan.Replace
import MealRota.Rotation.Snapshot
import MealRota.Proofs.Steps
import MealRota.Proofs.Sorting
import MealRota.Proofs.Choosing
import MealRota.Proofs.Pool
import MealRota.Proofs.Filling
import MealRota.Proofs.Replay
import MealRota.Proofs.WeekSlots
import MealRota.Proofs.DistinctMains
import MealRota.Proofs.WeekMains
import MealRota.Proofs.Tracing
import MealRota.Proofs.Runs
import MealRota.Proofs.Cycles
import MealRota.Proofs.Replanning
import MealRota.Proofs.Renewal
import MealRota.Proofs.Labels
import MealRota.Proofs.WeekLabels
import MealRota.Proofs.GivingBack
import MealRota.Proofs.Replacing
import MealRota.Proofs.Relabelling
import MealRota.Proofs.Edits
import MealRota.Proofs.DistinctIds
import MealRota.Proofs.InputOrder
import MealRota.Proofs.PlannedWeeks
import MealRota.Proofs.CurrentCycle
import MealRota.Proofs.Suitability
import MealRota.Proofs.InStep
import MealRota.Proofs.KeptWeeks
import MealRota.Proofs.Servings
import MealRota.Proofs.WholePlan
import MealRota.Proofs.Undoing
import MealRota.Proofs.ConsecutiveRuns
import MealRota.Proofs.Balance
import MealRota.Proofs.Spacing
import MealRota.Proofs.SpacedPlans
import MealRota.Proofs.Refilling
import MealRota.Proofs.SpacedSlots
import MealRota.Proofs.LastComplexity
import MealRota.Proofs.Timetable
import MealRota.Proofs.Failures
import MealRota.Proofs.FittingStates
import MealRota.Proofs.Substitutes
import MealRota.Proofs.SlotResets
import MealRota.Proofs.ChosenAgain
import MealRota.Proofs.Rounding
import MealRota.Proofs.Doubles
import MealRota.Proofs.Decimals
import MealRota.Proofs.Digits
import MealRota.Proofs.WrittenNumbers
import MealRota.Proofs.WrittenTokens
import MealRota.Proofs.WrittenValues
import MealRota.Proofs.Snapshots
import MealRota.Proofs.LockedMains
import MealRota.Proofs.SidePairing
import MealRota.Proofs.SlotOutcomes
import MealRota.Proofs.KeptMarks
import MealRota.Proofs.DoubleOrder
import MealRota.Proofs.Ranking
import MealRota.Proofs.SeededSlots
import MealRota.Proofs.Tags
import MealRota.Proofs.DietaryPools
import MealRota.Proofs.SnapshotText
import MealRota.Proofs.PoolContents
import MealRota.Proofs.Gregorian
import MealRota.Proofs.IsoDates
import MealRota.Proofs.CalendarWeeks
import MealRota.Proofs.Placements
