import OffsideBench.Main
import OffsideBench.Proofs.Bench.History
import OffsideBench.Proofs.Calendar
import OffsideBench.Proofs.EndOfText
import OffsideBench.Proofs.Fixture.PlainNames
import OffsideBench.Proofs.Fixture.Statements
import OffsideBench.Proofs.Layout.FirstLine
import OffsideBench.Proofs.Layout.Nesting
import OffsideBench.Proofs.Layout.TabStops
import OffsideBench.Proofs.Layout.WideLines
import OffsideBench.Proofs.LineEnds
import OffsideBench.Proofs.ReportFile
import OffsideBench.Proofs.ReportText
import OffsideBench.Proofs.Scanning
import OffsideBench.Proofs.Scenario.Plans
import OffsideBench.Proofs.SharedGrammar
import OffsideBench.Proofs.Sink
