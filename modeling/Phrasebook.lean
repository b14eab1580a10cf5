import Phrasebook.Library
import Phrasebook.Evaluation.Effect
import Phrasebook.Proofs.Draws
import Phrasebook.Proofs.Steps
import Phrasebook.Proofs.Termination
import Phrasebook.Proofs.Structure.Meaning
import Phrasebook.Proofs.Structure.Scanning
import Phrasebook.Proofs.Structure.Reading
import Phrasebook.Proofs.Structure.Simulation
import Phrasebook.Proofs.Structure.Constructs
import Phrasebook.Proofs.Structure.Repeating
import Phrasebook.Proofs.Structure.Refinement
import Phrasebook.Machine.Checked
import Phrasebook.Machine.Scan
import Phrasebook.Proofs.Safety.Scanning
import Phrasebook.Machine.Reading
import Phrasebook.Machine.Step
import Phrasebook.Proofs.Safety.Parsing
import Phrasebook.Proofs.Safety.Agreement
import Phrasebook.Proofs.Safety.Banks
import Phrasebook.Proofs.Safety.Picking
import Phrasebook.Proofs.Safety.Panics
import Phrasebook.Proofs.Substitution.Pieces
import Phrasebook.Proofs.Substitution.Expansion
import Phrasebook.Proofs.Substitution.Reference
import Phrasebook.Proofs.Substitution.Collecting
import Phrasebook.Proofs.Substitution.Resolution
import Phrasebook.Proofs.Globals.Schedule
import Phrasebook.Proofs.Globals.Coherence
import Phrasebook.Proofs.Substitution.Unlimited
import Phrasebook.Proofs.Substitution.Needed
import Phrasebook.Proofs.Streams.Insertion
import Phrasebook.Proofs.Articles.History
import Phrasebook.Proofs.Articles.Correction
import Phrasebook.Proofs.Structure.Copying
import Phrasebook.Proofs.Globals.Verbatim
import Phrasebook.Proofs.Streams.Routing
import Phrasebook.Proofs.Calls.Execution
import Phrasebook.Proofs.Calls.Carriers
import Phrasebook.Proofs.Banks.Classes
import Phrasebook.Proofs.Banks.Weights
import Phrasebook.Proofs.Faults
import Phrasebook.Proofs.Calls.Selection
import Phrasebook.Proofs.Progress
import Phrasebook.Proofs.Globals.Adjoining
import Phrasebook.Proofs.Tags.Places
import Phrasebook.Proofs.Tags.Choices
import Phrasebook.Proofs.Sessions.Counting
import Phrasebook.Proofs.Sessions.Requests
import Phrasebook.Proofs.Sessions.Notices
import Phrasebook.Proofs.Sessions.Values
import Phrasebook.Proofs.Sessions.Branches
import Phrasebook.Proofs.Repetitions.Flags
import Phrasebook.Proofs.Spellings.Legacy
import Phrasebook.Proofs.Selectors.Drawn
import Phrasebook.Proofs.Banks.Shares
import Phrasebook.Proofs.Banks.Freshness
import Phrasebook.Proofs.Banks.Candidates
import Phrasebook.Proofs.Notices.Places
import Phrasebook.Proofs.Substitution.Failing
import Phrasebook.Proofs.Substitution.Inert
import Phrasebook.Proofs.LineEndings.Runs
import Phrasebook.Proofs.Literals.Escaped
import Phrasebook.Proofs.Literals.Casing
import Phrasebook.Proofs.Numbers.Ranges
import Phrasebook.Proofs.Libraries.Building
import Phrasebook.Proofs.Selectors.Division
import Phrasebook.Proofs.Repetitions.Rounds
import Phrasebook.Proofs.Spellings.Extent
