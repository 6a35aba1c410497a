import Linework.Cell
import Linework.Window
import Linework.Pattern
import Linework.Role
import Linework.CellSet
import Linework.Grid
import Linework.Grid.Fill
import Linework.Grid.Lines
import Linework.Ink
import Linework.Outline
import Linework.Reduction
import Linework.Strand
import Linework.Numeral
import Linework.Geometry
import Linework.Color
import Linework.Color.Css
import Linework.Text
import Linework.Diagram
import Linework.Svg
import Linework.Trace
import Linework.Page
import Linework.Lettering
import Linework.Recognition
import Linework.Settings.Value
import Linework.Settings
import Linework.Fault
import Linework.Toml.Lexeme
import Linework.Toml.Tree
import Linework.Toml
import Linework.FileTree
import Linework.Command
import Linework.Command.Run
import Linework.Main
import Linework.Proofs.Arms
import Linework.Proofs.Joint
import Linework.Proofs.Continuation
import Linework.Proofs.Ring
import Linework.Proofs.Region
import Linework.Proofs.Canvas
import Linework.Proofs.Enclosure
import Linework.Proofs.Margin
import Linework.Proofs.Loop
import Linework.Proofs.Stretch
import Linework.Proofs.Tree
import Linework.Proofs.Network
import Linework.Proofs.Obsolete
import Linework.Proofs.Reduced
import Linework.Proofs.DisjointDrawings
import Linework.Proofs.Reach
import Linework.Proofs.Piece
import Linework.Proofs.Survey
import Linework.Proofs.Acyclic
import Linework.Proofs.OutlineCover
import Linework.Proofs.Rectangle
import Linework.Proofs.Tiling
import Linework.Proofs.ObsoleteArea
import Linework.Proofs.Rearranged
import Linework.Proofs.Gap
import Linework.Proofs.Ruling
import Linework.Proofs.Table
import Linework.Proofs.Boxes
import Linework.Proofs.Runs
import Linework.Proofs.Steps
import Linework.Proofs.Outcome
import Linework.Proofs.Return
import Linework.Proofs.Component
import Linework.Proofs.LineCharacters
import Linework.Proofs.Locality
import Linework.Proofs.Padding
import Linework.Proofs.SameLines
import Linework.Proofs.Polygon
import Linework.Proofs.Flood
import Linework.Proofs.EndingFills
import Linework.Proofs.Totality
import Linework.Proofs.Strings
import Linework.Proofs.Arrowheads
import Linework.Proofs.ArrowheadCaptions
import Linework.Proofs.Patience
import Linework.Proofs.Chains
import Linework.Proofs.ObsoleteOrder
import Linework.Proofs.Spans
import Linework.Proofs.MaximalPhrases
import Linework.Proofs.Captions
import Linework.Proofs.Tokens
import Linework.Proofs.Overprint
import Linework.Proofs.Pages
import Linework.Proofs.Crossroads
import Linework.Proofs.Classes
