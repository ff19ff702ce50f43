import Neo4jRender.Utf8
import Neo4jRender.World
import Neo4jRender.Render
import Neo4jRender.RenderResults
import Neo4jRender.Proofs.Triple
import Neo4jRender.Proofs.Guard
import Neo4jRender.Proofs.Field
import Neo4jRender.Proofs.Layout
import Neo4jRender.Proofs.Wrap
import Neo4jRender.Proofs.CsvReader
import Neo4jRender.Proofs.Csv
import Neo4jRender.Proofs.Errors
import Neo4jRender.Proofs.Encoding
import Neo4jRender.Proofs.Staging
import Neo4jRender.Proofs.Table
import Neo4jRender.Proofs.Termination
import Neo4jRender.Proofs.WideGlyphs
import Neo4jRender.Proofs.Wrapped
import Neo4jRender.Proofs.CsvReturns
import Neo4jRender.Proofs.Returns
import Neo4jRender.Proofs.Faults
import Neo4jRender.Proofs.Modes
import Neo4jRender.Proofs.Cells
import Neo4jRender.Proofs.Fuel
import Neo4jRender.Proofs.Display
