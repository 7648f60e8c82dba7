import CallLint.Main
import CallLint.Proofs.AssertionSettings
import CallLint.Proofs.Folding
import CallLint.Proofs.CallSites.Reached
import CallLint.Proofs.Entries
import CallLint.Proofs.Rearranged.Files
import CallLint.Proofs.Layout.Units
import CallLint.Proofs.Scans.Selections
import CallLint.Proofs.References.Units
import CallLint.Proofs.Directives
import CallLint.Proofs.Visits
import CallLint.Proofs.Scans.Silenced
import CallLint.Proofs.Scans.ExitStatus
import CallLint.Proofs.Owners.Origins
import CallLint.Proofs.Scopes.Units
import CallLint.Proofs.Catalogs.Grammar
import CallLint.Proofs.Catalogs.Sets
import CallLint.Proofs.TypeNames.Units
import CallLint.Proofs.Literals.TextBlocks
import CallLint.Proofs.TypeNames.Paths
import CallLint.Proofs.Inheritance.TestCases
import CallLint.Proofs.Scans.SourceFiles
import CallLint.Proofs.Scans.SarifRules
import CallLint.Proofs.Positions.Units
import CallLint.Proofs.AssertionEffort
import CallLint.Proofs.TypeNames.ClassTypes
import CallLint.Proofs.Reports.Decoded
import CallLint.Proofs.Depths.Units
import CallLint.Proofs.Scans.ReportedPaths
